import Coping.Ping.Options

/-!
# The walk over the options

`pr_options` of `ping.c` with its accesses and with what it shows, apart from the text. Every
byte is read through `read`, which has no result where there is no byte, and `old_rr` has the
forty bytes that it is declared with. What is shown keeps its place.
-/

namespace Coping

open CFormat

/-- The memory behind `cp`. -/
abbrev ReadByte := Nat → Option UInt8

def readBytes (read : ReadByte) : Nat → Nat → Option (List UInt8)
  | _, 0 => some []
  | start, n + 1 => do
      let c ← read start
      let rest ← readBytes read (start + 1) n
      return c :: rest

def MAX_IPOPTLEN : Nat := 40

/-- Four bytes that are shown, an address or a time. -/
structure Field where
  offset : Nat
  bytes : List UInt8

/-- A time, after those before it in its option. -/
structure TimeShown where
  field : Field
  standard : Bool
  absolute : Bool
  value : Int

inductive Stamp where
  | address (field : Field)
  | time (time : TimeShown)

inductive Shown where
  | nop
  | sourceRoute (strict : Bool) (addresses : List Field)
  | sameRoute
  | route (addresses : List Field)
  | times (stamps : List Stamp) (unrecorded : Nat)
  | unknown (type : UInt8)
  /-- A route or times without an entry. -/
  | nothing

/-- What is shown of the option at an offset. -/
structure ShownOption where
  offset : Nat
  olen : Nat
  shown : Shown

section Walk

variable (read : ReadByte)

def readField (offset : Nat) : Option Field := do
  let bytes ← readBytes read offset 4
  return ⟨offset, bytes⟩

/-- The loops over the addresses of a route. -/
def walkRoute (start left : Nat) : Option (List Field) := do
  let field ← readField read start
  if left ≤ 4 then return [field]
  else
    let rest ← walkRoute (start + 4) (left - 4)
    return field :: rest
termination_by left

/-- The value `l`. -/
def timeValue (bytes : List UInt8) : Nat := bytes.foldl (fun l c => l * 256 + c.toNat) 0

/-- A time, and what the standard or the other times begin with from there on. -/
def showTime (field : Field) (stdtime nonstdtime : Nat) : TimeShown × Nat × Nat :=
  let l := timeValue field.bytes
  let value : Nat := l % 2 ^ 31
  if 2 ^ 31 ≤ l then
    (⟨field, false, nonstdtime = 0, (value : Int) - nonstdtime⟩, stdtime, value)
  else (⟨field, true, stdtime = 0, (value : Int) - stdtime⟩, value, nonstdtime)

/-- The size of the address before a time. -/
def stampSkip (addressed : Bool) : Nat := if addressed then 4 else 0

theorem stampSkip_cases (addressed : Bool) : stampSkip addressed = 0 ∨ stampSkip addressed = 4 := by
  cases addressed with
  | false => exact .inl rfl
  | true => exact .inr rfl

def stampAddress (addressed : Bool) (start : Nat) : Option (List Stamp) :=
  if addressed then (readField read start).map fun field => [.address field] else some []

/-- The loop over the times, each behind an address where they are `addressed`. -/
def walkTimes (addressed : Bool) (start left stdtime nonstdtime : Nat) : Option (List Stamp) := do
  let address ← stampAddress read addressed start
  if left ≤ stampSkip addressed then return address
  else
    let field ← readField read (start + stampSkip addressed)
    if left ≤ stampSkip addressed + 4 then
      return address ++ [.time (showTime field stdtime nonstdtime).1]
    else
      let rest ← walkTimes addressed (start + stampSkip addressed + 4)
        (left - stampSkip addressed - 4) (showTime field stdtime nonstdtime).2.1
        (showTime field stdtime nonstdtime).2.2
      return address ++ .time (showTime field stdtime nonstdtime).1 :: rest
termination_by left

/-- Whether the bytes from the pointer on are those of the old route. They are compared when
there are as many. -/
def sameRoute (start i : Nat) (oldRr : List UInt8) : Option Bool :=
  if i = oldRr.length then (readBytes read start i).map (· = oldRr) else some false

/-- `i` behind the subtraction, where it is positive. -/
def filledBytes (offset : Nat) (j pointer : UInt8) : Nat := min pointer.toNat j.toNat - offset

def walkRecordRoute (optFlood : Bool) (start : Nat) (oldRr : List UInt8) :
    Option (Shown × List UInt8) := do
  let j ← read (start + 1)
  let pointer ← read (start + 2)
  if filledBytes IPOPT_MINOFF.toNat j pointer = 0 then return (.nothing, oldRr)
  else
    let same ← sameRoute read (start + 2) (filledBytes IPOPT_MINOFF.toNat j pointer) oldRr
    if same ∧ ¬optFlood then return (.sameRoute, oldRr)
    else if filledBytes IPOPT_MINOFF.toNat j pointer ≤ MAX_IPOPTLEN then
      let route ← readBytes read (start + 2) (filledBytes IPOPT_MINOFF.toNat j pointer)
      let addresses ← walkRoute read (start + 3) (filledBytes IPOPT_MINOFF.toNat j pointer)
      return (.route addresses, route)
    else none

def walkTimestamp (start : Nat) : Option Shown := do
  let j ← read (start + 1)
  let pointer ← read (start + 2)
  if filledBytes 5 j pointer = 0 then return .nothing
  else
    let flags ← read (start + 3)
    let stamps ← walkTimes read (flags &&& 0xf ≠ IPOPT_TS_TSONLY) (start + 4)
      (filledBytes 5 j pointer) 0 0
    return .times stamps (flags >>> 4).toNat

def walkSourceRoute (strict : Bool) (start : Nat) : Option Shown := do
  let j ← read (start + 1)
  if j.toNat > IPOPT_MINOFF.toNat then
    let addresses ← walkRoute read (start + 2) (j.toNat - IPOPT_MINOFF.toNat)
    return .sourceRoute strict addresses
  else return .sourceRoute strict []

def walkOption (optFlood : Bool) (start : Nat) (oldRr : List UInt8) :
    Option (Shown × List UInt8) := do
  let type ← read start
  if type = IPOPT_SSRR ∨ type = IPOPT_LSRR then
    let shown ← walkSourceRoute read (type = IPOPT_SSRR) start
    return (shown, oldRr)
  else if type = IPOPT_RR then walkRecordRoute read optFlood start oldRr
  else if type = IPOPT_TS then
    let shown ← walkTimestamp read start
    return (shown, oldRr)
  else return (.unknown type, oldRr)

def walkOptions (optFlood : Bool) (optptr totlen : Nat) (oldRr : List UInt8) :
    Option (List ShownOption × List UInt8) :=
  if totlen = 0 then some ([], oldRr)
  else do
    let type ← read optptr
    if type = IPOPT_EOL then return ([], oldRr)
    else if type = IPOPT_NOP then
      let rest ← walkOptions optFlood (optptr + 1) (totlen - 1) oldRr
      return (⟨optptr, 1, .nop⟩ :: rest.1, rest.2)
    else
      let olen ← read (optptr + 1)
      if olen.toNat < 2 ∨ olen.toNat > totlen then return ([], oldRr)
      else
        let option ← walkOption read optFlood optptr oldRr
        let rest ← walkOptions optFlood (optptr + olen.toNat) (totlen - olen.toNat) option.2
        return (⟨optptr, olen.toNat, option.1⟩ :: rest.1, rest.2)
termination_by totlen

end Walk

/-! ## The text -/

section Text

variable (prAddr : PrAddr)

def Field.text (field : Field) : List UInt8 :=
  if field.bytes = [0, 0, 0, 0] then ascii "\t0.0.0.0" else ascii "\t" ++ (prAddr field.bytes).bytes

def TimeShown.text (time : TimeShown) : List UInt8 :=
  ascii "\t" ++ decimal time.value ++ (if time.absolute then ascii " absolute" else []) ++
    if time.standard then [] else ascii " not-standard"

def Stamp.text : Stamp → List UInt8
  | .address field => field.text prAddr
  | .time shown => shown.text ++ [0x0a]

/-- The lines of a route. -/
def routeLines (addresses : List Field) : List UInt8 :=
  addresses.flatMap fun field => field.text prAddr ++ [0x0a]

def Shown.text : Shown → List UInt8
  | .nop => ascii "\nNOP"
  | .sourceRoute strict addresses =>
      ascii "\n" ++ (if strict then ascii "S" else ascii "L") ++ ascii "SRR: " ++
        routeLines prAddr addresses
  | .sameRoute => ascii "\t(same route)"
  | .route addresses => ascii "\nRR: " ++ routeLines prAddr addresses
  | .times stamps unrecorded =>
      ascii "\nTS: " ++ stamps.flatMap (Stamp.text prAddr) ++
        if unrecorded ≠ 0 then ascii "Unrecorded hops: " ++ decimal unrecorded ++ ascii "\n" else []
  | .unknown type => ascii "\nunknown option " ++ based 16 0 type.toNat
  | .nothing => []

def optionsText (shown : List ShownOption) : List UInt8 :=
  shown.flatMap fun option => option.shown.text prAddr

end Text

end Coping
