import Coping.Library.CBuffer
import Coping.Library.CFormat
import Coping.Ping.Addresses

/-!
# The options of a reply

`pr_addr` and `pr_options` of `ping.c`. The memory behind `cp` is a function of the
offset; no bound of it is known to the code but `totlen`. A route that was recorded is
kept in a static variable, and passed in and out here.
-/

namespace Coping

open CFormat

def NI_MAXHOST : Nat := 1025

def IPOPT_NOP : UInt8 := 1

def IPOPT_TS : UInt8 := 68

def IPOPT_TS_TSONLY : UInt8 := 0

/-- A text that `getnameinfo` has written to a buffer of `NI_MAXHOST` bytes. -/
structure NameInfo extends CString where
  fits : bytes.length < NI_MAXHOST

theorem NameInfo.empty_nonzero : (0 : UInt8) ∉ ([] : List UInt8) := List.not_mem_nil

theorem NameInfo.empty_fits : ([] : List UInt8).length < NI_MAXHOST := by decide

def NameInfo.empty : NameInfo := ⟨⟨[], empty_nonzero⟩, empty_fits⟩

/-- The address and the name that `_pr_addr` has looked up. The name is empty where it is
not asked for or not found. -/
structure HostText where
  name : NameInfo
  address : NameInfo

/-- What `_pr_addr` prints to its buffer of 4096 bytes. -/
def HostText.bytes (host : HostText) : List UInt8 :=
  if host.name.bytes ≠ [] ∧ host.name.bytes ≠ host.address.bytes then
    host.name.bytes ++ ascii " (" ++ host.address.bytes ++ ascii ")"
  else host.address.bytes

theorem HostText.nonzero (host : HostText) : 0 ∉ host.bytes := by
  have hname := host.name.nonzero
  have haddress := host.address.nonzero
  rw [HostText.bytes]
  split
  · have hopen : 0 ∉ ascii " (" := by decide
    have hclose : 0 ∉ ascii ")" := by decide
    simp only [List.mem_append, hname, haddress, hopen, hclose, or_false, not_false_eq_true]
  · exact haddress

/-- `pr_addr` of an address in network byte order. -/
abbrev PrAddr := List UInt8 → HostText

section Options

variable (prAddr : PrAddr) (cp : Nat → UInt8)

/-- Bytes in a row. -/
def memory (start length : Nat) : List UInt8 := (List.range length).map fun i => cp (start + i)

theorem length_memory (start n : Nat) : (memory cp start n).length = n := by
  rw [memory, List.length_map, List.length_range]

theorem memory_take {start m n : Nat} (le : m ≤ n) :
    (memory cp start n).take m = memory cp start m := by
  rw [memory, memory, ← List.map_take, List.take_range, Nat.min_eq_left le]

theorem memory_succ (start n : Nat) :
    memory cp start (n + 1) = cp start :: memory cp (start + 1) n := by
  rw [memory, memory, List.range_succ_eq_map, List.map_cons, List.map_map]
  congr 1
  apply List.map_congr_left
  intro i _
  change cp (start + (i + 1)) = cp (start + 1 + i)
  rw [Nat.add_assoc, Nat.add_comm 1 i]

/-- The bytes of two areas that follow each other. -/
theorem memory_add (start m n : Nat) :
    memory cp start (m + n) = memory cp start m ++ memory cp (start + m) n := by
  induction m generalizing start with
  | zero => rw [Nat.zero_add, Nat.add_zero]; rfl
  | succ m ih =>
      rw [Nat.succ_add_eq_add_succ, Nat.add_succ, memory_succ, memory_succ, ih, List.cons_append,
        Nat.add_right_comm, Nat.add_assoc]

def addressText (start : Nat) : List UInt8 :=
  let address := memory cp start 4
  if address = [0, 0, 0, 0] then ascii "\t0.0.0.0" else ascii "\t" ++ (prAddr address).bytes

/-- The loops over the addresses of a route. -/
def routeText (start left : Nat) : List UInt8 :=
  addressText prAddr cp start ++ [0x0a] ++
    if left ≤ 4 then [] else routeText (start + 4) (left - 4)
termination_by left

/-- A time, and what the standard or the other times begin with from there on. -/
def timeOption (l stdtime nonstdtime : Nat) : List UInt8 × Nat × Nat :=
  let value : Nat := l % 2 ^ 31
  if 2 ^ 31 ≤ l then
    (if nonstdtime = 0 then ascii "\t" ++ decimal value ++ ascii " absolute not-standard"
      else ascii "\t" ++ decimal ((value : Int) - nonstdtime) ++ ascii " not-standard",
      stdtime, value)
  else
    (if stdtime = 0 then ascii "\t" ++ decimal value ++ ascii " absolute"
      else ascii "\t" ++ decimal ((value : Int) - stdtime),
      value, nonstdtime)

/-- The loop over the times of a timestamp option. -/
def timesText (addressed : Bool) (start left stdtime nonstdtime : Nat) : List UInt8 :=
  let skip := if addressed then 4 else 0
  let address := if addressed then addressText prAddr cp start else []
  if left ≤ skip then address
  else
    let l := (memory cp (start + skip) 4).foldl (fun l c => l * 256 + c.toNat) 0
    let time := timeOption l stdtime nonstdtime
    address ++ time.1 ++ [0x0a] ++
      if left ≤ skip + 4 then []
      else timesText addressed (start + skip + 4) (left - skip - 4) time.2.1 time.2.2
termination_by left

/-- One option at `start`: what is printed, and the route that is kept. -/
def prOption (optFlood : Bool) (start : Nat) (oldRr : List UInt8) : List UInt8 × List UInt8 :=
  let type := cp start
  let j := (cp (start + 1)).toNat
  let i := min (cp (start + 2)).toNat j
  if type = IPOPT_SSRR ∨ type = IPOPT_LSRR then
    (ascii "\n" ++ (if type = IPOPT_SSRR then ascii "S" else ascii "L") ++ ascii "SRR: " ++
      -- The pointer of the option is read as a part of the first address.
      if j > IPOPT_MINOFF.toNat then routeText prAddr cp (start + 2) (j - IPOPT_MINOFF.toNat)
      else [], oldRr)
  else if type = IPOPT_RR then
    let route := memory cp (start + 2) (i - IPOPT_MINOFF.toNat)
    if i ≤ IPOPT_MINOFF.toNat then ([], oldRr)
    else if route = oldRr ∧ ¬optFlood then (ascii "\t(same route)", oldRr)
    else (ascii "\nRR: " ++ routeText prAddr cp (start + 3) (i - IPOPT_MINOFF.toNat), route)
  else if type = IPOPT_TS then
    let flags := cp (start + 3)
    if i ≤ 5 then ([], oldRr)
    else
      (ascii "\nTS: " ++
        timesText prAddr cp (flags &&& 0xf ≠ IPOPT_TS_TSONLY) (start + 4) (i - 5) 0 0 ++
        if flags >>> 4 ≠ 0 then
          ascii "Unrecorded hops: " ++ decimal (flags >>> 4).toNat ++ ascii "\n"
        else [], oldRr)
  else (ascii "\nunknown option " ++ based 16 0 type.toNat, oldRr)

/-- `pr_options`. `totlen` is what is left of the options. -/
def prOptions (optFlood : Bool) (optptr totlen : Nat) (oldRr : List UInt8) :
    List UInt8 × List UInt8 :=
  if totlen = 0 ∨ cp optptr = IPOPT_EOL then ([], oldRr)
  else if cp optptr = IPOPT_NOP then
    let rest := prOptions optFlood (optptr + 1) (totlen - 1) oldRr
    (ascii "\nNOP" ++ rest.1, rest.2)
  else
    let olen := (cp (optptr + 1)).toNat
    if olen < 2 ∨ olen > totlen then ([], oldRr)
    else
      let option := prOption prAddr cp optFlood optptr oldRr
      let rest := prOptions optFlood (optptr + olen) (totlen - olen) option.2
      (option.1 ++ rest.1, rest.2)
termination_by totlen

end Options

end Coping
