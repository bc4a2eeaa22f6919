import Coping.Library.Bitmap
import Coping.Library.CInt

/-!
# The runtime state of ping

`PingRts` is `struct ping_rts` of `ping.h`, restricted to the fields that the
modelled functions read or write. Counters that the program only moves up from
zero are naturals; the fields whose C type wraps in the code that follows
(`acked`, `rtt`) keep that type. `tsum` and `tsum2` are doubles in C and integers
that are not rounded here. They hold sums of whole microseconds and of their squares:
below `2 ^ 53`, where a double holds every integer, the two are the same, and beyond
it nothing is said about the program.

The functions are the inline functions of the same header.
-/

namespace Coping

open CInt

def MAXPACKET : Nat := 65535

/-- The number of sequence numbers that the received table keeps apart. -/
def MAX_DUP_CHK : Nat := 65536

def BITMAP_SHIFT : Nat := 6

def MIN_INTERVAL_MS : Int := 10

def MIN_USER_INTERVAL_MS : Int := 2

def MIN_MULTICAST_USER_INTERVAL_MS : Int := 1000

def MSG_CONFIRM : Int := 2048

def schint (a : Int) : Int := if a ≤ MIN_INTERVAL_MS then MIN_INTERVAL_MS else a

/-- `struct timespec`. -/
structure Timespec where
  tvSec : Int := 0
  tvNsec : Int := 0
  deriving DecidableEq

/-- `struct timeval`. -/
structure Timeval where
  tvSec : Int := 0
  tvUsec : Int := 0
  deriving DecidableEq

/-- Eight bytes of a 64-bit integer, least significant first. -/
def le64 (x : Int) : List UInt8 :=
  (List.range 8).map fun i => UInt8.ofNat ((x % 2 ^ 64).toNat / 256 ^ i)

/-- The sixteen bytes that `memcpy` takes from a `struct timeval`. -/
def Timeval.bytes (tv : Timeval) : List UInt8 := le64 tv.tvSec ++ le64 tv.tvUsec

@[simp] theorem le64_length (x : Int) : (le64 x).length = 8 := by simp [le64]

@[simp] theorem Timeval.bytes_length (tv : Timeval) : tv.bytes.length = 16 := by
  simp [Timeval.bytes]

/-- The packet buffer: always `MAXPACKET` bytes. -/
structure Outpack where
  bytes : List UInt8
  size : bytes.length = MAXPACKET

/-- Copy `bs` over the buffer from `offset` on. The buffer never grows. -/
def Outpack.write (p : Outpack) (offset : Nat) (bs : List UInt8) : Outpack where
  bytes := (p.bytes.take offset ++ bs ++ p.bytes.drop (offset + bs.length)).take MAXPACKET
  size := by
    have := p.size
    simp only [List.length_take, List.length_append, List.length_drop]
    omega

def Outpack.zero : Outpack where
  bytes := List.replicate MAXPACKET 0
  size := List.length_replicate

/-- `struct rcvd_table`: one bit for each 16-bit sequence number. -/
abbrev RcvdTable := Bitmap 64 1024

/-- `struct ping_ni`. In place of the secret stand the six bytes that `niquery_nonce`
has behind each number, whether it fills them in or compares with them. -/
structure PingNi where
  query : Int := -1
  flag : UInt16 := 0
  subject : List UInt8 := []
  subjectType : Int := -1
  digest : UInt16 → Vector UInt8 6 := fun _ => Vector.replicate 6 0

/-- `struct ping_rts`, with the values that `main` initialises it to. -/
structure PingRts where
  outpack : Outpack := Outpack.zero
  rcvdTbl : RcvdTable := Bitmap.empty
  datalen : Nat := 56
  hostname : List UInt8 := []
  uid : Nat := 0
  ident : Int := -1
  npackets : Nat := 0
  nreceived : Nat := 0
  nrepeats : Nat := 0
  ntransmitted : Nat := 0
  nchecksum : Nat := 0
  nerrors : Nat := 0
  interval : Int := 1000
  preload : Int := 1
  deadline : Int := 0
  lingertime : Nat := 10000000
  curTime : Timespec := {}
  exiting : Bool := false
  confirm : Int := 0
  confirmFlag : Int := MSG_CONFIRM
  timing : Bool := false
  tmin : Int := longMax
  tmax : Int := 0
  tsum : Int := 0
  tsum2 : Int := 0
  rtt : UInt64 := 0
  rttAddend : Int := 0
  acked : UInt16 := 0
  pipesize : Int := -1
  multicast : Bool := false
  whereto : UInt32 := 0
  whereto6 : BitVec 128 := 0
  broadcastPings : Bool := false
  screenWidth : Int := intMax
  ni : PingNi := {}
  optAdaptive : Bool := false
  optFlood : Bool := false
  optInterval : Bool := false
  optLatency : Bool := false
  optOutstanding : Bool := false
  optPtimeofday : Bool := false
  optQuiet : Bool := false

/-- The state in which the options given by the user start a run. -/
def PingRts.start (options : PingRts) : PingRts :=
  { options with
    rcvdTbl := Bitmap.empty
    nreceived := 0
    nrepeats := 0
    ntransmitted := 0
    nchecksum := 0
    nerrors := 0
    curTime := {}
    exiting := false
    tmin := longMax
    tmax := 0
    tsum := 0
    tsum2 := 0
    rtt := 0
    rttAddend := 0
    acked := 0
    pipesize := -1 }

/-- `(uint16_t)` of a probe number. -/
def low16 (n : Nat) : UInt16 := UInt16.ofNat n

@[simp] theorem low16_toNat (n : Nat) : (low16 n).toNat = n % 65536 := UInt16.toNat_ofNat'

theorem low16_eq_iff {m n : Nat} : low16 m = low16 n ↔ m % 65536 = n % 65536 := by
  rw [← UInt16.toNat_inj, low16_toNat, low16_toNat]

/-- The word of the table that holds a bit, macro `A`. -/
def rcvdWord (rts : PingRts) (bit : Nat) : BitVec 64 :=
  (rts.rcvdTbl[bit >>> BITMAP_SHIFT]?).getD 0

/-- The mask of a bit in its word, macro `B`. -/
def rcvdMask (bit : Nat) : BitVec 64 := 1#64 <<< (bit &&& ((1 <<< BITMAP_SHIFT) - 1))

def rcvdSet (rts : PingRts) (seq : UInt16) : PingRts :=
  let bit := seq.toNat % MAX_DUP_CHK
  { rts with
    rcvdTbl :=
      rts.rcvdTbl.setIfInBounds (bit >>> BITMAP_SHIFT) (rcvdWord rts bit ||| rcvdMask bit) }

def rcvdClear (rts : PingRts) (seq : UInt16) : PingRts :=
  let bit := seq.toNat % MAX_DUP_CHK
  { rts with
    rcvdTbl :=
      rts.rcvdTbl.setIfInBounds (bit >>> BITMAP_SHIFT) (rcvdWord rts bit &&& ~~~rcvdMask bit) }

def rcvdTest (rts : PingRts) (seq : UInt16) : BitVec 64 :=
  let bit := seq.toNat % MAX_DUP_CHK
  rcvdWord rts bit &&& rcvdMask bit

def inFlight (rts : PingRts) : Int :=
  let diff := low16 rts.ntransmitted - rts.acked
  if diff ≤ 0x7FFF then diff.toNat
  else toInt32 (rts.ntransmitted - rts.nreceived - rts.nerrors)

/-- Both operands of the subtractions in the last test are promoted to `int`, so
only the first one wraps, at its conversion to `int16_t`. -/
def acknowledge (rts : PingRts) (seq : UInt16) : PingRts :=
  let diff := low16 rts.ntransmitted - seq
  { rts with
    pipesize :=
      if diff ≤ 0x7FFF ∧ (diff.toNat : Int) + 1 > rts.pipesize then (diff.toNat : Int) + 1
      else rts.pipesize
    acked :=
      if diff ≤ 0x7FFF ∧ (toInt16 ((seq.toNat : Int) - rts.acked.toNat) > 0 ∨
        ((low16 rts.ntransmitted).toNat : Int) - rts.acked.toNat > 0x7FFF) then seq
      else rts.acked }

def advanceNtransmitted (rts : PingRts) : PingRts :=
  let next := rts.ntransmitted + 1
  { rts with
    ntransmitted := next
    -- Invalidate acked, if 16 bit seq overflows.
    acked := if ((low16 next).toNat : Int) - rts.acked.toNat > 0x7FFF then low16 next + 1
      else rts.acked }

/-! ## The duplicate table as a set of sequence numbers -/

theorem rcvdMask_eq (bit : Nat) : rcvdMask bit = Bitmap.mask 64 bit := by
  have hand : bit &&& 63 = bit % 64 := Nat.and_two_pow_sub_one_eq_mod bit 6
  change 1#64 <<< (bit &&& 63) = BitVec.twoPow 64 (bit % 64)
  rw [hand, BitVec.twoPow_eq]

theorem rcvdWord_eq (rts : PingRts) (bit : Nat) : rcvdWord rts bit = rts.rcvdTbl.word bit := by
  have hshift : bit >>> 6 = bit / 64 := Nat.shiftRight_eq_div_pow bit 6
  change (rts.rcvdTbl[bit >>> 6]?).getD 0 = (rts.rcvdTbl[bit / 64]?).getD 0
  rw [hshift]

private theorem seq_mod (seq : UInt16) : seq.toNat % MAX_DUP_CHK = seq.toNat :=
  Nat.mod_eq_of_lt seq.toNat_lt

theorem rcvdSet_eq (rts : PingRts) (seq : UInt16) :
    rcvdSet rts seq = { rts with rcvdTbl := rts.rcvdTbl.insert seq.toNat } := by
  have hshift : seq.toNat >>> 6 = seq.toNat / 64 := Nat.shiftRight_eq_div_pow seq.toNat 6
  simp only [rcvdSet, seq_mod, rcvdMask_eq, rcvdWord_eq, BITMAP_SHIFT, hshift]
  rfl

theorem rcvdClear_eq (rts : PingRts) (seq : UInt16) :
    rcvdClear rts seq = { rts with rcvdTbl := rts.rcvdTbl.erase seq.toNat } := by
  have hshift : seq.toNat >>> 6 = seq.toNat / 64 := Nat.shiftRight_eq_div_pow seq.toNat 6
  simp only [rcvdClear, seq_mod, rcvdMask_eq, rcvdWord_eq, BITMAP_SHIFT, hshift]
  rfl

private theorem seq_word_lt (seq : UInt16) : seq.toNat / 64 < 1024 := by
  have := seq.toNat_lt
  omega

theorem rcvdTest_eq_zero_iff (rts : PingRts) (seq : UInt16) :
    rcvdTest rts seq = 0 ↔ rts.rcvdTbl.contains seq.toNat = false := by
  rw [rcvdTest, seq_mod, rcvdMask_eq, rcvdWord_eq]
  exact Bitmap.select_eq_zero_iff (by decide) rts.rcvdTbl seq.toNat

theorem contains_insert_seq (table : RcvdTable) (seq seq' : UInt16) :
    (table.insert seq.toNat).contains seq'.toNat =
      (decide (seq' = seq) || table.contains seq'.toNat) := by
  rw [Bitmap.contains_insert (by decide) (seq_word_lt seq)]
  simp only [UInt16.toNat_inj]

theorem contains_erase_seq (table : RcvdTable) (seq seq' : UInt16) :
    (table.erase seq.toNat).contains seq'.toNat =
      (!decide (seq' = seq) && table.contains seq'.toNat) := by
  rw [Bitmap.contains_erase (by decide) (seq_word_lt seq)]
  simp only [UInt16.toNat_inj]

/-- The abstract view of the table: has this sequence number been received? -/
def marked (rts : PingRts) (seq : UInt16) : Bool := rts.rcvdTbl.contains seq.toNat

theorem rcvdTest_eq_zero {rts : PingRts} {seq : UInt16} :
    rcvdTest rts seq = 0 ↔ marked rts seq = false := rcvdTest_eq_zero_iff rts seq

theorem marked_rcvdSet (rts : PingRts) (seq seq' : UInt16) :
    marked (rcvdSet rts seq) seq' = (decide (seq' = seq) || marked rts seq') := by
  rw [rcvdSet_eq]
  exact contains_insert_seq rts.rcvdTbl seq seq'

theorem marked_rcvdClear (rts : PingRts) (seq seq' : UInt16) :
    marked (rcvdClear rts seq) seq' = (!decide (seq' = seq) && marked rts seq') := by
  rw [rcvdClear_eq]
  exact contains_erase_seq rts.rcvdTbl seq seq'

/-! ## The acknowledged sequence number in unbounded arithmetic -/

theorem low16_sub_toNat (n : Nat) (x : UInt16) :
    ((low16 n - x).toNat : Int) = ((n : Int) - x.toNat) % 65536 := by
  have := x.toNat_lt
  rw [UInt16.toNat_sub, low16_toNat]
  omega

/-- How far a sequence number lies behind the last probe, within one cycle. -/
def lag (rts : PingRts) (seq : UInt16) : Int := ((rts.ntransmitted : Int) - seq.toNat) % 65536

theorem lag_low16 {rts : PingRts} {k : Nat} :
    lag rts (low16 k) = ((rts.ntransmitted : Int) - k) % 65536 := by
  rw [lag, low16_toNat]
  omega

private theorem diff_le_iff (rts : PingRts) (seq : UInt16) :
    low16 rts.ntransmitted - seq ≤ 0x7FFF ↔ lag rts seq ≤ 0x7FFF := by
  have hdiff := low16_sub_toNat rts.ntransmitted seq
  rw [UInt16.le_iff_toNat_le, lag, ← hdiff]
  change _ ≤ 32767 ↔ _
  omega

theorem inFlight_eq (rts : PingRts) :
    inFlight rts = if lag rts rts.acked ≤ 0x7FFF then lag rts rts.acked
      else toInt32 (rts.ntransmitted - rts.nreceived - rts.nerrors) := by
  simp only [inFlight, diff_le_iff, low16_sub_toNat]
  rfl

/-- The acknowledged sequence number is replaced by a newer one inside the
window, and by any one inside the window when `acked` is numerically far below
the last probe. -/
theorem acknowledge_acked (rts : PingRts) (seq : UInt16) :
    (acknowledge rts seq).acked =
      if lag rts seq ≤ 0x7FFF ∧ (0 < toInt16 ((seq.toNat : Int) - rts.acked.toNat) ∨
        0x7FFF < (rts.ntransmitted : Int) % 65536 - rts.acked.toNat) then seq
      else rts.acked := by
  simp only [acknowledge, diff_le_iff, low16_toNat, gt_iff_lt, Int.natCast_emod, Nat.cast_ofNat]

theorem acknowledge_pipesize (rts : PingRts) (seq : UInt16) :
    (acknowledge rts seq).pipesize =
      if lag rts seq ≤ 0x7FFF then max rts.pipesize (lag rts seq + 1) else rts.pipesize := by
  have hdiff : ((low16 rts.ntransmitted - seq).toNat : Int) = lag rts seq :=
    low16_sub_toNat rts.ntransmitted seq
  simp only [acknowledge, diff_le_iff, hdiff]
  split <;> split <;> omega

theorem advanceNtransmitted_acked (rts : PingRts) :
    (advanceNtransmitted rts).acked =
      if 0x7FFF < ((rts.ntransmitted + 1 : Nat) : Int) % 65536 - rts.acked.toNat then
        low16 (rts.ntransmitted + 2) else rts.acked := by
  have hnext : low16 (rts.ntransmitted + 1) + 1 = low16 (rts.ntransmitted + 2) := by
    rw [← UInt16.toNat_inj, UInt16.toNat_add, low16_toNat, low16_toNat]
    change ((rts.ntransmitted + 1) % 65536 + 1) % 65536 = _
    omega
  simp only [advanceNtransmitted, low16_toNat, gt_iff_lt, hnext, Int.natCast_emod, Nat.cast_ofNat]

@[simp] theorem advanceNtransmitted_ntransmitted (rts : PingRts) :
    (advanceNtransmitted rts).ntransmitted = rts.ntransmitted + 1 := rfl

@[simp] theorem advanceNtransmitted_pipesize (rts : PingRts) :
    (advanceNtransmitted rts).pipesize = rts.pipesize := rfl

@[simp] theorem acknowledge_ntransmitted (rts : PingRts) (seq : UInt16) :
    (acknowledge rts seq).ntransmitted = rts.ntransmitted := rfl

end Coping
