import Coping.Verification.OptionBounds

/-!
# Addresses and times that are shown

What an options area stores, written down option by option, and what the walk over its bytes
shows. Recorded routes and times are shown as they are stored. The addresses of a source route
are read from its pointer on, one byte too early, and so come out right only where all of their
bytes are that of the pointer.
-/

namespace Coping.StoredOptions

open OptionWalk OptionBounds

/-! ## The stored options -/

/-- The four bytes of an address or of a time. -/
structure Word where
  bytes : List UInt8
  four : bytes.length = 4

/-- The flag of a timestamp option. -/
inductive StampFlag where
  | tsOnly
  | tsAndAddr
  | tsPrespec

def StampFlag.octet : StampFlag → UInt8
  | .tsOnly => 0
  | .tsAndAddr => 1
  | .tsPrespec => 3

/-- Whether each time stands behind an address. -/
def StampFlag.addressed : StampFlag → Bool
  | .tsOnly => false
  | _ => true

/-- A time of a timestamp option, with its address where there is one. -/
structure Entry (addressed : Bool) where
  address : Option Word
  time : Word
  behind : address.isSome = addressed

def Entry.bytes {addressed : Bool} (entry : Entry addressed) : List UInt8 :=
  (entry.address.elim [] Word.bytes) ++ entry.time.bytes

/-- An option of a well-formed area. The entries behind the pointer of a record route or of a
timestamp are free, whatever bytes they have. -/
inductive StoredOption where
  | nop
  | sourceRoute (strict : Bool) (pointer : UInt8) (addresses : List Word)
  | recordRoute (recorded free : List Word)
  | timestamps (flag : StampFlag) (overflow : Fin 16) (recorded free : List (Entry flag.addressed))

/-- Type, length and data. -/
def optionBytes (type : UInt8) (data : List UInt8) : List UInt8 :=
  type :: UInt8.ofNat (2 + data.length) :: data

def StoredOption.bytes : StoredOption → List UInt8
  | .nop => [IPOPT_NOP]
  | .sourceRoute strict pointer addresses =>
      optionBytes (if strict then IPOPT_SSRR else IPOPT_LSRR)
        (pointer :: addresses.flatMap Word.bytes)
  | .recordRoute recorded free =>
      optionBytes IPOPT_RR
        (UInt8.ofNat (4 + (recorded.flatMap Word.bytes).length) ::
          (recorded.flatMap Word.bytes ++ free.flatMap Word.bytes))
  | .timestamps flag overflow recorded free =>
      optionBytes IPOPT_TS
        (UInt8.ofNat (5 + (recorded.flatMap Entry.bytes).length) ::
          (UInt8.ofNat overflow <<< 4 ||| flag.octet) ::
          (recorded.flatMap Entry.bytes ++ free.flatMap Entry.bytes))

/-- The end of an area: nothing, or an EOL and what is behind it. -/
def endBytes (padding : Option (List UInt8)) : List UInt8 :=
  padding.elim [] fun padding => IPOPT_EOL :: padding

def areaBytes (options : List StoredOption) (padding : Option (List UInt8)) : List UInt8 :=
  options.flatMap StoredOption.bytes ++ endBytes padding

/-- An options area, which a header has forty bytes for. -/
structure OptionsArea where
  options : List StoredOption
  padding : Option (List UInt8)
  fits : (areaBytes options padding).length ≤ MAX_IPOPTLEN

def OptionsArea.bytes (area : OptionsArea) : List UInt8 := areaBytes area.options area.padding

/-! ## What is shown of them -/

/-- A time without the bit that marks those that are not standard. -/
def Word.time (word : Word) : Nat := timeValue word.bytes % 2 ^ 31

def Word.standard (word : Word) : Prop := timeValue word.bytes < 2 ^ 31

/-- A time is shown as it is, or as the difference from the last one of its kind. -/
structure ShowsTime (last : Option Nat) (time : Nat) (shown : TimeShown) : Prop where
  value : shown.value = (time : Int) - (last.getD 0 : Nat)
  first : last = none → shown.absolute = true
  absolute : shown.absolute = true → shown.value = time

def ShowsAddress (address : Option Word) (shown : List Stamp) : Prop :=
  match address with
  | none => shown = []
  | some word => ∃ field, shown = [.address field] ∧ field.bytes = word.bytes

/-- Entries are shown in order, with the last times of both kinds before them. -/
inductive ShowsEntries {addressed : Bool} :
    Option Nat → Option Nat → List (Entry addressed) → List Stamp → Prop where
  | nil {standard other : Option Nat} : ShowsEntries standard other [] []
  | standard {standard other : Option Nat} {entry : Entry addressed}
      {entries : List (Entry addressed)} {address stamps : List Stamp} {shown : TimeShown}
      (kind : entry.time.standard ∧ shown.standard = true)
      (before : ShowsAddress entry.address address)
      (time : ShowsTime standard entry.time.time shown)
      (rest : ShowsEntries (some entry.time.time) other entries stamps) :
      ShowsEntries standard other (entry :: entries) (address ++ .time shown :: stamps)
  | other {standard other : Option Nat} {entry : Entry addressed}
      {entries : List (Entry addressed)} {address stamps : List Stamp} {shown : TimeShown}
      (kind : ¬entry.time.standard ∧ shown.standard = false)
      (before : ShowsAddress entry.address address)
      (time : ShowsTime other entry.time.time shown)
      (rest : ShowsEntries standard (some entry.time.time) entries stamps) :
      ShowsEntries standard other (entry :: entries) (address ++ .time shown :: stamps)

/-- An option is shown with exactly the addresses and times that it stores, in order. A record
route that is called the same as the last one is left aside. -/
inductive Shows : StoredOption → Shown → Prop where
  | nop : Shows .nop .nop
  | sourceRoute {strict : Bool} {pointer : UInt8} {addresses : List Word} {fields : List Field}
      (same : fields.map Field.bytes = addresses.map Word.bytes) :
      Shows (.sourceRoute strict pointer addresses) (.sourceRoute strict fields)
  | noRoute {free : List Word} : Shows (.recordRoute [] free) .nothing
  | sameRoute {recorded free : List Word} : Shows (.recordRoute recorded free) .sameRoute
  | route {recorded free : List Word} {fields : List Field}
      (same : fields.map Field.bytes = recorded.map Word.bytes) :
      Shows (.recordRoute recorded free) (.route fields)
  | noTimes {flag : StampFlag} {overflow : Fin 16} {free : List (Entry flag.addressed)} :
      Shows (.timestamps flag overflow [] free) .nothing
  | times {flag : StampFlag} {overflow : Fin 16} {recorded free : List (Entry flag.addressed)}
      {stamps : List Stamp} (same : ShowsEntries none none recorded stamps) :
      Shows (.timestamps flag overflow recorded free) (.times stamps overflow)

/-- The walk over an area shows its options one after the other, and no others. -/
def ShowsArea (area : OptionsArea) (optFlood : Bool) (oldRr : List UInt8) : Prop :=
  ∃ walk, walkOptions (areaRead area.bytes) optFlood 0 area.bytes.length oldRr = some walk ∧
    List.Forall₂ (fun option shown => Shows option shown.shown) area.options walk.1

/-- All bytes of the addresses of a source route are that of its pointer, if it has any. -/
def Legible : StoredOption → Prop
  | .sourceRoute _ pointer addresses => ∀ address ∈ addresses, ∀ c ∈ address.bytes, c = pointer
  | _ => True

section Reads

variable {read : ReadByte} {start left : Nat} {bytes front back area : List UInt8}

/-- These bytes are read from an offset on. -/
def Reads (read : ReadByte) (start : Nat) (bytes : List UInt8) : Prop :=
  readBytes read start bytes.length = some bytes

theorem reads_nil : Reads read start [] := rfl

theorem reads_cons {c : UInt8} :
    Reads read start (c :: bytes) ↔ read start = some c ∧ Reads read (start + 1) bytes := by
  rw [Reads, List.length_cons, readBytes]
  constructor
  · intro h
    obtain ⟨d, hd, h⟩ := Option.bind_eq_some_iff.mp h
    obtain ⟨rest, hrest, h⟩ := Option.bind_eq_some_iff.mp h
    obtain ⟨rfl, rfl⟩ := List.cons.inj (Option.some.inj h)
    exact ⟨hd, hrest⟩
  · rintro ⟨hc, hrest⟩
    rw [hc, Option.bind_eq_bind, Option.bind_some, hrest]
    rfl

theorem reads_append : ∀ {front : List UInt8} {start : Nat}, Reads read start (front ++ back) ↔
    Reads read start front ∧ Reads read (start + front.length) back
  | [], start => (and_iff_right reads_nil).symm
  | c :: front, start => by
      rw [List.cons_append, reads_cons, reads_cons, reads_append, and_assoc, List.length_cons,
        Nat.add_assoc, Nat.add_comm 1]

theorem reads_area : ∀ (back front : List UInt8),
    Reads (areaRead (front ++ back)) front.length back
  | [], front => reads_nil
  | c :: back, front => by
      refine reads_cons.mpr ⟨?_, ?_⟩
      · rw [areaRead, List.getElem?_append_right (Nat.le_refl _), Nat.sub_self]
        rfl
      · have hrest := reads_area back (front ++ [c])
        rwa [List.append_assoc, List.length_append] at hrest

theorem readField_reads (reads : Reads read start bytes) (four : bytes.length = 4) :
    readField read start = some ⟨start, bytes⟩ := by
  rw [Reads, four] at reads
  rw [readField, reads]
  rfl

end Reads

/-! ## Routes -/

section Routes

variable {read : ReadByte} {start left : Nat}

theorem length_words (words : List Word) :
    (words.flatMap Word.bytes).length = 4 * words.length := by
  rw [List.length_flatMap, List.map_congr_left fun word _ => word.four, List.map_const',
    List.sum_replicate_nat, Nat.mul_comm]

/-- The loop over addresses shows as many words as it has room for. -/
theorem walkRoute_reads : ∀ {left start : Nat} {bytes : List UInt8}, 0 < left →
    Reads read start bytes → bytes.length = wordBytes left →
    ∃ fields, walkRoute read start left = some fields ∧ fields.flatMap Field.bytes = bytes ∧
      ∀ field ∈ fields, field.bytes.length = 4 := by
  intro left start bytes positive reads length
  have hword : 4 ≤ bytes.length := by
    rw [length, wordBytes]
    omega
  rw [← List.take_append_drop 4 bytes, reads_append] at reads
  have hfour : (bytes.take 4).length = 4 := List.length_take_of_le hword
  have hfield := readField_reads reads.1 hfour
  rw [walkRoute, hfield, Option.bind_eq_bind, Option.bind_some]
  by_cases hlast : left ≤ 4
  · rw [wordBytes_last positive hlast] at length
    have hall : bytes.take 4 = bytes := List.take_of_length_le (Nat.le_of_eq length)
    rw [if_pos hlast, hall]
    refine ⟨_, rfl, List.append_nil bytes, ?_⟩
    intro field mem
    rw [List.mem_singleton.mp mem]
    exact length
  · rw [wordBytes_more (Nat.not_le.mp hlast)] at length
    rw [hfour] at reads
    have hrest : (bytes.drop 4).length = wordBytes (left - 4) := by
      rw [List.length_drop, length, Nat.add_sub_cancel_left]
    obtain ⟨fields, hwalk, hbytes, hwords⟩ := walkRoute_reads (by omega) reads.2 hrest
    rw [if_neg hlast, hwalk]
    refine ⟨_, rfl, ?_, List.forall_mem_cons.mpr ⟨hfour, hwords⟩⟩
    rw [List.flatMap_cons, hbytes]
    exact List.take_append_drop 4 bytes
termination_by left => left

theorem lengths_four {groups : List (List UInt8)} (four : ∀ group ∈ groups, group.length = 4) :
    groups.map List.length = List.replicate groups.length 4 := by
  rw [List.map_congr_left four, List.map_const']

/-- Groups of four bytes are known from all of these in a row. -/
theorem flatten_eq_iff {groups others : List (List UInt8)}
    (four : ∀ group ∈ groups, group.length = 4) (fours : ∀ group ∈ others, group.length = 4) :
    groups.flatten = others.flatten ↔ groups = others := by
  constructor
  · intro h
    have hlength := congrArg List.length h
    rw [List.length_flatten, List.length_flatten, lengths_four four, lengths_four fours,
      List.sum_replicate_nat, List.sum_replicate_nat] at hlength
    have hcount : groups.length = others.length := by omega
    rw [List.eq_iff_flatten_eq, lengths_four four, lengths_four fours, hcount]
    exact ⟨h, rfl⟩
  · exact congrArg List.flatten

/-- Fields of four bytes are the words if they are these byte for byte. -/
theorem fields_eq_words {fields : List Field} {words : List Word}
    (four : ∀ field ∈ fields, field.bytes.length = 4) :
    fields.flatMap Field.bytes = words.flatMap Word.bytes ↔
      fields.map Field.bytes = words.map Word.bytes := by
  refine flatten_eq_iff ?_ ?_
  · exact List.forall_mem_map.mpr four
  · exact List.forall_mem_map.mpr fun word _ => word.four

/-- Bytes that are read one too early, from the pointer on. -/
theorem dropLast_eq_iff : ∀ {bytes : List UInt8} {pointer : UInt8},
    (pointer :: bytes).dropLast = bytes ↔ ∀ c ∈ bytes, c = pointer
  | [], pointer => ⟨fun _ c mem => absurd mem List.not_mem_nil, fun _ => rfl⟩
  | c :: bytes, pointer => by
      rw [List.dropLast_cons_cons, List.cons.injEq, dropLast_eq_iff, List.forall_mem_cons]
      constructor
      · rintro ⟨rfl, hrest⟩
        exact ⟨rfl, hrest⟩
      · rintro ⟨rfl, hrest⟩
        exact ⟨rfl, hrest⟩

theorem toNat_length {data : List UInt8} {type : UInt8}
    (fits : (optionBytes type data).length ≤ MAX_IPOPTLEN) :
    (UInt8.ofNat (2 + data.length)).toNat = 2 + data.length := by
  refine UInt8.toNat_ofNat_of_lt ?_
  have hfits : data.length + 1 + 1 ≤ 40 := fits
  have hsize : UInt8.size = 256 := rfl
  omega

theorem walkSourceRoute_reads {strict : Bool} {type pointer : UInt8} {addresses : List Word}
    (reads : Reads read start (optionBytes type (pointer :: addresses.flatMap Word.bytes)))
    (fits : (optionBytes type (pointer :: addresses.flatMap Word.bytes)).length ≤ MAX_IPOPTLEN) :
    ∃ shown, walkSourceRoute read strict start = some shown ∧
      (Shows (.sourceRoute strict pointer addresses) shown ↔
        ∀ address ∈ addresses, ∀ c ∈ address.bytes, c = pointer) := by
  obtain ⟨-, hreads⟩ := reads_cons.mp reads
  obtain ⟨hlength, hdata⟩ := reads_cons.mp hreads
  have hcount := length_words addresses
  rw [walkSourceRoute, hlength, Option.bind_eq_bind, Option.bind_some, toNat_length fits,
    List.length_cons, hcount]
  have hoffset : IPOPT_MINOFF.toNat = 4 := rfl
  rw [hoffset]
  by_cases hnone : addresses = []
  · subst hnone
    refine ⟨_, if_neg (by decide), ?_⟩
    exact ⟨fun _ address mem => absurd mem List.not_mem_nil, fun _ => .sourceRoute rfl⟩
  have hsome : 0 < addresses.length := List.length_pos_of_ne_nil hnone
  rw [← List.dropLast_concat_getLast (List.cons_ne_nil pointer _), reads_append] at hdata
  have hbytes : (pointer :: addresses.flatMap Word.bytes).dropLast.length =
      wordBytes (2 + (4 * addresses.length + 1) - 4) := by
    rw [List.length_dropLast, List.length_cons, hcount, wordBytes]
    omega
  obtain ⟨fields, hwalk, hshown, hfour⟩ := walkRoute_reads (by omega) hdata.1 hbytes
  refine ⟨.sourceRoute strict fields, ?_, ?_⟩
  · rw [if_pos (by omega)]
    change Option.bind (walkRoute read (start + 1 + 1) _) _ = _
    rw [hwalk]
    rfl
  · have hall : (∀ c ∈ addresses.flatMap Word.bytes, c = pointer) ↔
        ∀ address ∈ addresses, ∀ c ∈ address.bytes, c = pointer := List.forall_mem_flatMap
    rw [← hall, ← dropLast_eq_iff, ← hshown, fields_eq_words hfour]
    constructor
    · intro h
      cases h with
      | sourceRoute same => exact same
    · exact .sourceRoute

/-- The pointer of an option stands behind the recorded entries, and the loop counts the words of
these. -/
theorem pointed_reads {type : UInt8} {offset : Nat} {front recorded free : List UInt8}
    (reads : Reads read start (optionBytes type
      (UInt8.ofNat (offset + recorded.length) :: (front ++ (recorded ++ free)))))
    (fits : (optionBytes type
      (UInt8.ofNat (offset + recorded.length) :: (front ++ (recorded ++ free)))).length ≤
        MAX_IPOPTLEN)
    (place : offset = 4 + front.length) (words : recorded.length % 4 = 0 ∧ free.length % 4 = 0) :
    ∃ j pointer, read (start + 1) = some j ∧
      Reads read (start + 2) (pointer :: (front ++ (recorded ++ free))) ∧
      wordBytes (filledBytes offset j pointer) = recorded.length ∧
      filledBytes offset j pointer ≤ min recorded.length MAX_IPOPTLEN ∧
      (filledBytes offset j pointer = 0 ↔ recorded.length = 0) := by
  obtain ⟨-, hreads⟩ := reads_cons.mp reads
  obtain ⟨hlength, hdata⟩ := reads_cons.mp hreads
  refine ⟨_, _, hlength, hdata, ?_⟩
  have hj := toNat_length fits
  rw [List.length_cons, List.length_append, List.length_append] at hj
  have hroom : front.length + (recorded.length + free.length) + 1 + 1 + 1 ≤ 40 := by
    rwa [optionBytes, List.length_cons, List.length_cons, List.length_cons, List.length_append,
      List.length_append] at fits
  have hbehind : (UInt8.ofNat (offset + recorded.length)).toNat = offset + recorded.length := by
    refine UInt8.toNat_ofNat_of_lt ?_
    have hsize : UInt8.size = 256 := rfl
    omega
  have hmax : MAX_IPOPTLEN = 40 := rfl
  rw [filledBytes, hbehind, List.length_cons, List.length_append, List.length_append, hj,
    wordBytes, hmax]
  refine ⟨?_, ?_, ?_⟩ <;> omega

theorem Reads.readable {bytes : List UInt8} (reads : Reads read start bytes) :
    Readable read start bytes.length :=
  readBytes_isSome_iff.mp (Option.isSome_iff_exists.mpr ⟨bytes, reads⟩)

theorem sameRoute_of_readable {n : Nat} {oldRr : List UInt8} (h : Readable read start n) :
    ∃ same, sameRoute read start n oldRr = some same := by
  obtain ⟨bytes, hbytes⟩ := Option.isSome_iff_exists.mp (readBytes_isSome_iff.mpr h)
  rw [sameRoute]
  split
  · rw [hbytes]
    exact ⟨_, rfl⟩
  · exact ⟨_, rfl⟩

theorem walkRecordRoute_reads {optFlood : Bool} {oldRr : List UInt8} {recorded free : List Word}
    (reads : Reads read start (StoredOption.recordRoute recorded free).bytes)
    (fits : (StoredOption.recordRoute recorded free).bytes.length ≤ MAX_IPOPTLEN) :
    ∃ walk, walkRecordRoute read optFlood start oldRr = some walk ∧
      Shows (.recordRoute recorded free) walk.1 := by
  have hrecorded := length_words recorded
  obtain ⟨j, pointer, hlength, hdata, hcount, hle, hzero⟩ :=
    @pointed_reads read start IPOPT_RR 4 [] _ _ reads fits rfl
      ⟨by rw [hrecorded]; exact Nat.mul_mod_right 4 _,
        by rw [length_words]; exact Nat.mul_mod_right 4 _⟩
  obtain ⟨hpointer, hwords⟩ := reads_cons.mp hdata
  rw [List.nil_append, reads_append] at hwords
  have hoffset : IPOPT_MINOFF.toNat = 4 := rfl
  rw [walkRecordRoute, hlength, Option.bind_eq_bind, Option.bind_some, hpointer,
    Option.bind_eq_bind, Option.bind_some, hoffset]
  generalize filledBytes 4 j pointer = i at hcount hle hzero ⊢
  obtain ⟨hall, hcopy⟩ := Nat.le_min.mp hle
  rw [hrecorded] at hzero
  by_cases hnone : recorded = []
  · subst hnone
    exact ⟨_, if_pos (hzero.mpr rfl), .noRoute⟩
  have hsome : i ≠ 0 := by
    intro h
    refine hnone (List.length_eq_zero_iff.mp ?_)
    exact (Nat.mul_eq_zero.mp (hzero.mp h)).resolve_left (by decide)
  rw [if_neg hsome]
  have hcompared : Readable read (start + 2) i := by
    refine hdata.readable.mono (Nat.le_trans hall ?_)
    rw [List.length_cons, List.nil_append, List.length_append]
    omega
  obtain ⟨same, hsame⟩ := @sameRoute_of_readable read (start + 2) i oldRr hcompared
  rw [hsame, Option.bind_some]
  by_cases hequal : same = true ∧ ¬optFlood = true
  · exact ⟨_, if_pos hequal, .sameRoute⟩
  rw [if_neg hequal, if_pos hcopy]
  obtain ⟨route, hroute⟩ := Option.isSome_iff_exists.mp (readBytes_isSome_iff.mpr hcompared)
  obtain ⟨fields, hwalk, hshown, hfour⟩ :=
    walkRoute_reads (Nat.pos_of_ne_zero hsome) hwords.1 hcount.symm
  refine ⟨(.route fields, route), ?_, .route ((fields_eq_words hfour).mp hshown)⟩
  rw [hroute, Option.bind_eq_bind, Option.bind_some]
  change Option.bind (walkRoute read (start + 2 + 1) i) _ = _
  rw [hwalk]
  rfl

end Routes

/-! ## Times -/

section Times

variable {read : ReadByte} {start left : Nat} {addressed : Bool} {standard other : Option Nat}

/-- The last times of both kinds behind a time. -/
def lastTimes (word : Word) (standard other : Option Nat) : Option Nat × Option Nat :=
  if 2 ^ 31 ≤ timeValue word.bytes then (standard, some word.time) else (some word.time, other)

theorem showTime_last {field : Field} {word : Word} (same : field.bytes = word.bytes) :
    (showTime field (standard.getD 0) (other.getD 0)).2 =
      ((lastTimes word standard other).1.getD 0, (lastTimes word standard other).2.getD 0) := by
  rw [showTime, lastTimes, same]
  split <;> rfl

theorem showsTime_of {last : Option Nat} {field : Field} {time : Nat} {kind : Bool} :
    ShowsTime last time ⟨field, kind, last.getD 0 = 0, (time : Int) - (last.getD 0 : Nat)⟩ where
  value := rfl
  first h := by
    rw [h]
    rfl
  absolute h := by
    have hzero : last.getD 0 = 0 := of_decide_eq_true h
    rw [hzero]
    exact Int.sub_zero _

/-- An entry and those behind it. -/
theorem showsEntries_cons {field : Field} {entry : Entry addressed}
    {entries : List (Entry addressed)} {address stamps : List Stamp}
    (same : field.bytes = entry.time.bytes) (before : ShowsAddress entry.address address)
    (rest : ShowsEntries (lastTimes entry.time standard other).1
      (lastTimes entry.time standard other).2 entries stamps) :
    ShowsEntries standard other (entry :: entries)
      (address ++ .time (showTime field (standard.getD 0) (other.getD 0)).1 :: stamps) := by
  rw [showTime, same]
  by_cases hkind : 2 ^ 31 ≤ timeValue entry.time.bytes
  · rw [lastTimes, if_pos hkind] at rest
    rw [if_pos hkind]
    exact .other ⟨Nat.not_lt.mpr hkind, rfl⟩ before showsTime_of rest
  · rw [lastTimes, if_neg hkind] at rest
    rw [if_neg hkind]
    exact .standard ⟨Nat.not_le.mp hkind, rfl⟩ before showsTime_of rest

theorem length_address (entry : Entry addressed) :
    (entry.address.elim [] Word.bytes).length = stampSkip addressed := by
  obtain ⟨address, time, rfl⟩ := entry
  cases address with
  | none => rfl
  | some word => exact word.four

theorem length_entries (entries : List (Entry addressed)) :
    (entries.flatMap Entry.bytes).length = (stampSkip addressed + 4) * entries.length := by
  have hentry : ∀ entry ∈ entries, entry.bytes.length = stampSkip addressed + 4 := by
    intro entry _
    rw [Entry.bytes, List.length_append, length_address, entry.time.four]
  rw [List.length_flatMap, List.map_congr_left hentry, List.map_const', List.sum_replicate_nat,
    Nat.mul_comm]

/-- The address of an entry, if its time is addressed. -/
theorem stampAddress_reads (entry : Entry addressed)
    (reads : Reads read start (entry.address.elim [] Word.bytes)) :
    ∃ address, stampAddress read addressed start = some address ∧
      ShowsAddress entry.address address := by
  obtain ⟨address, time, rfl⟩ := entry
  cases address with
  | none => exact ⟨[], rfl, rfl⟩
  | some word =>
      refine ⟨[.address ⟨start, word.bytes⟩], ?_, ⟨start, word.bytes⟩, rfl, rfl⟩
      change Option.map _ (readField read start) = _
      rw [readField_reads reads word.four]
      rfl

/-- The counter of the loop, at an entry and `n` of them behind it. -/
theorem wordBytes_entries (addressed : Bool) {n : Nat}
    (length : wordBytes left = (stampSkip addressed + 4) * (n + 1)) :
    ¬left ≤ stampSkip addressed ∧ (left ≤ stampSkip addressed + 4 ↔ n = 0) ∧
      wordBytes (left - stampSkip addressed - 4) = (stampSkip addressed + 4) * n := by
  rw [wordBytes] at length ⊢
  obtain hskip | hskip := stampSkip_cases addressed
  · rw [hskip] at length ⊢
    omega
  · rw [hskip] at length ⊢
    omega

/-- The loop over times shows its entries, with or without addresses. -/
theorem walkTimes_reads : ∀ {entries : List (Entry addressed)} {left start : Nat}
    {standard other : Option Nat}, 0 < left →
    Reads read start (entries.flatMap Entry.bytes) →
    wordBytes left = (stampSkip addressed + 4) * entries.length →
    ∃ stamps, walkTimes read addressed start left (standard.getD 0) (other.getD 0) = some stamps ∧
      ShowsEntries standard other entries stamps
  | [], left, start, standard, other, positive, _, length => by
      have hwords := wordBytes_pos positive
      rw [length] at hwords
      exact absurd hwords (Nat.lt_irrefl 0)
  | entry :: entries, left, start, standard, other, positive, reads, length => by
      rw [List.flatMap_cons, reads_append, Entry.bytes, reads_append, List.length_append,
        length_address, entry.time.four] at reads
      obtain ⟨⟨haddress, htime⟩, hrest⟩ := reads
      obtain ⟨address, hstamp, hbefore⟩ := stampAddress_reads entry haddress
      have hfield := readField_reads htime entry.time.four
      obtain ⟨hmore, hlast, hcount⟩ := wordBytes_entries addressed length
      rw [walkTimes, hstamp, Option.bind_eq_bind, Option.bind_some, if_neg hmore, hfield,
        Option.bind_eq_bind, Option.bind_some]
      by_cases hend : entries = []
      · subst hend
        refine ⟨_, if_pos (hlast.mpr rfl), ?_⟩
        exact showsEntries_cons rfl hbefore .nil
      · have hnext : ¬left ≤ stampSkip addressed + 4 :=
          fun h => hend (List.length_eq_zero_iff.mp (hlast.mp h))
        rw [← Nat.add_assoc] at hrest
        obtain ⟨stamps, hwalk, hshows⟩ := @walkTimes_reads entries _ _
          (lastTimes entry.time standard other).1 (lastTimes entry.time standard other).2
          (by omega) hrest hcount
        rw [if_neg hnext, showTime_last rfl, hwalk]
        exact ⟨_, rfl, showsEntries_cons rfl hbefore hshows⟩

theorem flags_addressed (flag : StampFlag) (overflow : Fin 16) :
    decide ((UInt8.ofNat overflow <<< 4 ||| flag.octet) &&& 0xf ≠ IPOPT_TS_TSONLY) =
      flag.addressed := by
  cases flag <;> revert overflow <;> decide

theorem flags_overflow (flag : StampFlag) (overflow : Fin 16) :
    ((UInt8.ofNat overflow <<< 4 ||| flag.octet) >>> 4).toNat = overflow := by
  cases flag <;> revert overflow <;> decide

theorem walkTimestamp_reads {flag : StampFlag} {overflow : Fin 16}
    {recorded free : List (Entry flag.addressed)}
    (reads : Reads read start (StoredOption.timestamps flag overflow recorded free).bytes)
    (fits : (StoredOption.timestamps flag overflow recorded free).bytes.length ≤ MAX_IPOPTLEN) :
    ∃ shown, walkTimestamp read start = some shown ∧
      Shows (.timestamps flag overflow recorded free) shown := by
  have hskip : (stampSkip flag.addressed + 4) % 4 = 0 := by
    cases flag <;> rfl
  have hfour : ∀ entries : List (Entry flag.addressed),
      (entries.flatMap Entry.bytes).length % 4 = 0 := by
    intro entries
    rw [length_entries, Nat.mul_mod, hskip, Nat.zero_mul, Nat.zero_mod]
  obtain ⟨j, pointer, hlength, hdata, hcount, -, hzero⟩ :=
    @pointed_reads read start IPOPT_TS 5 [UInt8.ofNat overflow <<< 4 ||| flag.octet] _ _ reads
      fits rfl ⟨hfour recorded, hfour free⟩
  obtain ⟨hpointer, hdata⟩ := reads_cons.mp hdata
  rw [List.singleton_append, reads_cons, reads_append] at hdata
  obtain ⟨hflags, hentries, -⟩ := hdata
  rw [walkTimestamp, hlength, Option.bind_eq_bind, Option.bind_some, hpointer,
    Option.bind_eq_bind, Option.bind_some]
  generalize filledBytes 5 j pointer = i at hcount hzero ⊢
  rw [length_entries] at hcount hzero
  by_cases hnone : recorded = []
  · subst hnone
    exact ⟨_, if_pos (hzero.mpr rfl), .noTimes⟩
  have hsome : i ≠ 0 := by
    intro h
    refine hnone (List.length_eq_zero_iff.mp ?_)
    exact (Nat.mul_eq_zero.mp (hzero.mp h)).resolve_left (Nat.succ_ne_zero _)
  obtain ⟨stamps, hwalk, hshows⟩ := @walkTimes_reads read flag.addressed recorded i
    (start + 2 + 1 + 1) none none (Nat.pos_of_ne_zero hsome) hentries hcount
  refine ⟨.times stamps overflow, ?_, .times hshows⟩
  change read (start + 3) = _ at hflags
  rw [if_neg hsome, hflags, Option.bind_some, flags_addressed, flags_overflow]
  change Option.bind (walkTimes read flag.addressed (start + 2 + 1 + 1) i 0 0) _ = _
  change walkTimes read flag.addressed (start + 2 + 1 + 1) i 0 0 = _ at hwalk
  rw [hwalk]
  rfl

end Times

/-! ## The area -/

section Area

variable {read : ReadByte} {start : Nat} {optFlood : Bool} {oldRr : List UInt8}
variable {padding : Option (List UInt8)}

/-- All but a NOP have a type and a length. -/
theorem StoredOption.bytes_eq {option : StoredOption} (long : option ≠ .nop) :
    ∃ type data, option.bytes = optionBytes type data ∧ type ≠ IPOPT_EOL ∧ type ≠ IPOPT_NOP := by
  cases option with
  | nop => exact absurd rfl long
  | sourceRoute strict pointer addresses =>
      refine ⟨_, _, rfl, ?_⟩
      cases strict <;> decide
  | recordRoute recorded free => exact ⟨_, _, rfl, by decide⟩
  | timestamps flag overflow recorded free => exact ⟨_, _, rfl, by decide⟩

/-- An option with a length. -/
theorem walkOption_reads {option : StoredOption} (long : option ≠ .nop)
    (reads : Reads read start option.bytes) (fits : option.bytes.length ≤ MAX_IPOPTLEN) :
    ∃ walk, walkOption read optFlood start oldRr = some walk ∧
      (Shows option walk.1 ↔ Legible option) := by
  cases option with
  | nop => exact absurd rfl long
  | sourceRoute strict pointer addresses =>
      obtain ⟨htype, -⟩ := reads_cons.mp reads
      obtain ⟨shown, hwalk, hshows⟩ := @walkSourceRoute_reads read start strict _ _ _ reads fits
      have hstrict : decide ((if strict = true then IPOPT_SSRR else IPOPT_LSRR) = IPOPT_SSRR) =
          strict := by
        cases strict <;> rfl
      have hsource : (if strict = true then IPOPT_SSRR else IPOPT_LSRR) = IPOPT_SSRR ∨
          (if strict = true then IPOPT_SSRR else IPOPT_LSRR) = IPOPT_LSRR := by
        cases strict
        · exact .inr rfl
        · exact .inl rfl
      refine ⟨(shown, oldRr), ?_, hshows⟩
      rw [walkOption, htype, Option.bind_eq_bind, Option.bind_some, if_pos hsource, hstrict, hwalk]
      rfl
  | recordRoute recorded free =>
      obtain ⟨htype, -⟩ := reads_cons.mp reads
      obtain ⟨walk, hwalk, hshows⟩ :=
        @walkRecordRoute_reads read start optFlood oldRr _ _ reads fits
      refine ⟨walk, ?_, iff_of_true hshows trivial⟩
      rw [walkOption, htype, Option.bind_eq_bind, Option.bind_some, if_neg (by decide),
        if_pos rfl]
      exact hwalk
  | timestamps flag overflow recorded free =>
      obtain ⟨htype, -⟩ := reads_cons.mp reads
      obtain ⟨shown, hwalk, hshows⟩ := walkTimestamp_reads reads fits
      refine ⟨(shown, oldRr), ?_, iff_of_true hshows trivial⟩
      rw [walkOption, htype, Option.bind_eq_bind, Option.bind_some, if_neg (by decide),
        if_neg (by decide), if_pos rfl, hwalk]
      rfl

/-- The end of an area, where the walk shows nothing. -/
theorem walkOptions_end (reads : Reads read start (endBytes padding)) :
    walkOptions read optFlood start (endBytes padding).length oldRr = some ([], oldRr) := by
  cases padding with
  | none => rw [walkOptions, if_pos (by rfl)]
  | some padding =>
      obtain ⟨hend, -⟩ := reads_cons.mp reads
      rw [walkOptions, if_neg (by exact Nat.succ_ne_zero _), hend, Option.bind_eq_bind,
        Option.bind_some, if_pos rfl]
      rfl

/-- A NOP, and the walk behind it. -/
theorem walkOptions_nop {n : Nat} {walk : List ShownOption × List UInt8}
    (reads : Reads read start StoredOption.nop.bytes)
    (rest : walkOptions read optFlood (start + 1) n oldRr = some walk) :
    walkOptions read optFlood start (1 + n) oldRr = some (⟨start, 1, .nop⟩ :: walk.1, walk.2) := by
  obtain ⟨hnop, -⟩ := reads_cons.mp reads
  rw [walkOptions, if_neg (by omega), hnop, Option.bind_eq_bind, Option.bind_some,
    if_neg (by decide), if_pos rfl, Nat.add_sub_cancel_left, rest]
  rfl

/-- An option with a length, and the walk behind it. -/
theorem walkOptions_option {type : UInt8} {data : List UInt8} {n : Nat}
    {first : Shown × List UInt8} {walk : List ShownOption × List UInt8}
    (kind : type ≠ IPOPT_EOL ∧ type ≠ IPOPT_NOP)
    (reads : Reads read start (optionBytes type data))
    (fits : (optionBytes type data).length ≤ MAX_IPOPTLEN)
    (option : walkOption read optFlood start oldRr = some first)
    (rest : walkOptions read optFlood (start + (optionBytes type data).length) n first.2 =
      some walk) :
    walkOptions read optFlood start ((optionBytes type data).length + n) oldRr =
      some (⟨start, (optionBytes type data).length, first.1⟩ :: walk.1, walk.2) := by
  obtain ⟨htype, hreads⟩ := reads_cons.mp reads
  obtain ⟨hlength, -⟩ := reads_cons.mp hreads
  have holen : (UInt8.ofNat (2 + data.length)).toNat = (optionBytes type data).length := by
    rw [toNat_length fits, optionBytes, List.length_cons, List.length_cons]
    omega
  have htwo : 2 ≤ (optionBytes type data).length := Nat.le_add_left 2 data.length
  rw [walkOptions, if_neg (by omega), htype, Option.bind_eq_bind, Option.bind_some,
    if_neg kind.1, if_neg kind.2, hlength, Option.bind_eq_bind, Option.bind_some, holen,
    if_neg (by omega), option, Option.bind_eq_bind, Option.bind_some, Nat.add_sub_cancel_left,
    rest]
  rfl

theorem walkOptions_reads : ∀ {options : List StoredOption} {start : Nat} {oldRr : List UInt8},
    Reads read start (areaBytes options padding) →
    (areaBytes options padding).length ≤ MAX_IPOPTLEN →
    ∃ walk,
      walkOptions read optFlood start (areaBytes options padding).length oldRr = some walk ∧
        (List.Forall₂ (fun option shown => Shows option shown.shown) options walk.1 ↔
          ∀ option ∈ options, Legible option)
  | [], start, oldRr, reads, fits => by
      refine ⟨_, walkOptions_end reads, ?_⟩
      exact iff_of_true .nil fun option mem => absurd mem List.not_mem_nil
  | option :: options, start, oldRr, reads, fits => by
      have harea : areaBytes (option :: options) padding =
          option.bytes ++ areaBytes options padding := by
        rw [areaBytes, List.flatMap_cons, List.append_assoc]
        rfl
      rw [harea, reads_append] at reads
      rw [harea, List.length_append] at fits
      obtain ⟨hoption, hrest⟩ := reads
      rw [harea, List.length_append, List.forall_mem_cons]
      by_cases hnop : option = .nop
      · subst hnop
        obtain ⟨walk, hwalk, hshows⟩ :=
          @walkOptions_reads options (start + 1) oldRr hrest (by omega)
        refine ⟨_, walkOptions_nop hoption hwalk, ?_⟩
        rw [List.forall₂_cons, hshows]
        exact and_congr_left fun _ => iff_of_true .nop trivial
      · obtain ⟨first, hfirst, hlegible⟩ :=
          @walkOption_reads read start optFlood oldRr option hnop hoption (by omega)
        obtain ⟨walk, hwalk, hshows⟩ := @walkOptions_reads options _ first.2 hrest (by omega)
        obtain ⟨type, data, hbytes, hkind⟩ := StoredOption.bytes_eq hnop
        rw [hbytes] at hoption fits hwalk ⊢
        refine ⟨_, walkOptions_option hkind hoption (by omega) hfirst hwalk, ?_⟩
        rw [List.forall₂_cons, hshows, hlegible]

end Area

/-- An area is shown as it is stored if and only if no source route of it has an address with
another byte than its pointer. -/
theorem options_shown_iff (area : OptionsArea) (optFlood : Bool) (oldRr : List UInt8) :
    ShowsArea area optFlood oldRr ↔ ∀ option ∈ area.options, Legible option := by
  obtain ⟨walk, hwalk, hshows⟩ := @walkOptions_reads _ optFlood area.padding area.options 0 oldRr
    (reads_area area.bytes []) area.fits
  rw [← hshows]
  constructor
  · rintro ⟨shown, hshown, hall⟩
    rwa [Option.some.inj (hwalk.symm.trans hshown)]
  · exact fun hall => ⟨walk, hwalk, hall⟩

/-- A source route through 10.0.0.1, which has been there. -/
def visited : OptionsArea where
  options := [.sourceRoute false 8 [⟨[10, 0, 0, 1], rfl⟩]]
  padding := some []
  fits := by decide

/-- The address is shown as 8.10.0.0. -/
theorem options_misread : ¬ShowsArea visited false [] := by
  rintro ⟨walk, hwalk, hall⟩
  obtain ⟨shown, hshown, hiff⟩ := @walkOptions_reads _ false visited.padding visited.options 0 []
    (reads_area visited.bytes []) visited.fits
  rw [Option.some.inj (hshown.symm.trans hwalk)] at hiff
  have hlegible := hiff.mp hall _ (List.mem_singleton_self _)
  have hten : (10 : UInt8) = 8 := hlegible _ (List.mem_singleton_self _) 10 (by decide)
  exact absurd hten (by decide)

end Coping.StoredOptions
