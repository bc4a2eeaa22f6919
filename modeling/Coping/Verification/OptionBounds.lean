import Coping.Ping.Probe
import Coping.Verification.OptionReads

/-!
# The bounds of the options

The walk trusts the octets of an option as soon as its length fits into what is left. It stays
inside the bytes that it was given, and every address and time inside its option, if and only if
the area is proper. For a datagram socket the walk is told of sixteen bytes too many, those of
the header of the control message, and only an end of the options keeps it inside.
-/

namespace Coping.OptionBounds

open OptionWalk

/-- The options that `ping4_parse_reply` finds in a reply. -/
inductive ReplyOptions where
  /-- Those of the IP header, on a raw socket. -/
  | header (bytes : List UInt8)
  /-- The payload of the `IP_RETOPTS` control message on a datagram socket, if there is one. -/
  | retopts (payload : Option (List UInt8))

/-- The header of a control message, `CMSG_LEN(0)`. -/
def CMSG_HEADER : Nat := 16

/-- The bytes that there are. -/
def ReplyOptions.bytes : ReplyOptions → List UInt8
  | .header bytes => bytes
  | .retopts payload => payload.getD []

/-- `olen`: the size of the options of the header, or the `cmsg_len` of the message. -/
def ReplyOptions.olen : ReplyOptions → Nat
  | .header bytes => bytes.length
  | .retopts none => 0
  | .retopts (some payload) => CMSG_HEADER + payload.length

/-- There is nothing behind an area. -/
def areaRead (area : List UInt8) : ReadByte := fun i => area[i]?

/-- The four-byte fields that are shown. -/
def fields : Shown → List Field
  | .sourceRoute _ addresses => addresses
  | .route addresses => addresses
  | .times stamps _ => stamps.map Stamp.field
  | _ => []

/-- What is shown of an option stands in it. -/
def Within (option : ShownOption) : Prop :=
  ∀ field ∈ fields option.shown,
    option.offset ≤ field.offset ∧ field.offset + 4 ≤ option.offset + option.olen

/-- The walk over the options of a reply reads only bytes that there are, copies at most forty of
them, and shows addresses and times from inside their options. -/
def Inside (options : ReplyOptions) (oldRr : List UInt8) : Prop :=
  ∃ walk, walkOptions (areaRead options.bytes) false 0 options.olen oldRr = some walk ∧
    ∀ option ∈ walk.1, Within option

section Proper

variable (area : List UInt8)

/-- The first bytes of an option are in the option and in the area. -/
def Fits (start olen n : Nat) : Prop := n ≤ olen ∧ start + n ≤ area.length

def octet (i : Nat) : UInt8 := area.getD i 0

/-- The bytes that the pointer of a record route leaves to compare. -/
def routeFilled (start : Nat) : Nat :=
  filledBytes IPOPT_MINOFF.toNat (octet area (start + 1)) (octet area (start + 2))

/-- The same for the pointer of a timestamp. -/
def timesFilled (start : Nat) : Nat :=
  filledBytes 5 (octet area (start + 1)) (octet area (start + 2))

/-- The route that is kept behind an option. -/
def keptRoute (start : Nat) (oldRr : List UInt8) : List UInt8 :=
  if octet area start = IPOPT_RR ∧ routeFilled area start ≠ 0 then
    memory (octet area) (start + 2) (routeFilled area start)
  else oldRr

/-- The pointer leaves no entry, or the words of the entries fit in. A route that is the old one
is not shown. -/
def ProperOption (start olen : Nat) (oldRr : List UInt8) : Prop :=
  if octet area start = IPOPT_SSRR ∨ octet area start = IPOPT_LSRR then
    olen ≤ 4 ∨ Fits area start olen (2 + wordBytes (olen - 4))
  else if octet area start = IPOPT_RR then
    start + 3 ≤ area.length ∧
      (routeFilled area start = 0 ∨
        start + 2 + routeFilled area start ≤ area.length ∧
          memory (octet area) (start + 2) (routeFilled area start) = oldRr ∨
        routeFilled area start ≤ MAX_IPOPTLEN ∧
          Fits area start olen (3 + wordBytes (routeFilled area start)))
  else if octet area start = IPOPT_TS then
    start + 3 ≤ area.length ∧
      (timesFilled area start = 0 ∨
        Fits area start olen (4 + wordBytes (timesFilled area start)))
  else True

/-- Every option that is come to is proper, and the walk ends before the area does. -/
def Proper (optptr totlen : Nat) (oldRr : List UInt8) : Prop :=
  if totlen = 0 then True
  else if octet area optptr = IPOPT_NOP then
    optptr < area.length ∧ Proper (optptr + 1) (totlen - 1) oldRr
  else if octet area optptr = IPOPT_EOL then optptr < area.length
  else if (octet area (optptr + 1)).toNat < 2 ∨ (octet area (optptr + 1)).toNat > totlen then
    optptr + 1 < area.length
  else
    optptr + 1 < area.length ∧
      ProperOption area optptr (octet area (optptr + 1)).toNat oldRr ∧
      Proper (optptr + (octet area (optptr + 1)).toNat)
        (totlen - (octet area (optptr + 1)).toNat) (keptRoute area optptr oldRr)
termination_by totlen

end Proper

section Area

variable {area oldRr : List UInt8} {start olen n : Nat}

theorem agrees_area (area : List UInt8) : Agrees (areaRead area) (octet area) := by
  intro i c h
  rw [areaRead] at h
  rw [octet, List.getD_eq_getElem?_getD, h, Option.getD_some]

theorem isSome_areaRead {i : Nat} : (areaRead area i).isSome ↔ i < area.length := by
  rw [areaRead, Option.isSome_iff_ne_none, Ne, List.getElem?_eq_none_iff, Nat.not_le]

theorem readable_area (positive : 0 < n) :
    Readable (areaRead area) start n ↔ start + n ≤ area.length := by
  constructor
  · intro h
    have hlast := isSome_areaRead.mp (h (n - 1) (Nat.sub_lt positive Nat.zero_lt_one))
    omega
  · intro hle i hi
    exact isSome_areaRead.mpr (by omega)

theorem read_octet (inside : start < area.length) :
    areaRead area start = some (octet area start) := by
  rw [areaRead, octet, List.getD_eq_getElem?_getD, List.getElem?_eq_getElem inside,
    Option.getD_some]

theorem read_outside (outside : ¬start < area.length) : areaRead area start = none :=
  List.getElem?_eq_none (Nat.not_lt.mp outside)

theorem wordBytes_pos (positive : 0 < n) : 0 < wordBytes n := by
  rw [wordBytes]
  omega

/-- The last byte of a run of them decides whether they can be read. -/
theorem readBytes_area (positive : 0 < n) :
    (start + n ≤ area.length → readBytes (areaRead area) start n =
      some (memory (octet area) start n)) ∧
    (¬start + n ≤ area.length → readBytes (areaRead area) start n = none) := by
  constructor
  · intro hle
    obtain ⟨bytes, hbytes⟩ := Option.isSome_iff_exists.mp
      (readBytes_isSome_iff.mpr ((readable_area positive).mpr hle))
    rw [hbytes, readBytes_memory (agrees_area area) hbytes]
  · intro hgt
    rw [← Option.not_isSome_iff_eq_none, readBytes_isSome_iff, readable_area positive]
    exact hgt

end Area

section Option

variable {area oldRr : List UInt8} {start olen n left : Nat} {shown : Shown}

/-- A byte that is read has to be in the area. -/
theorem bind_read_iff {α : Type} {i : Nat} {next : UInt8 → Option α} {P : α → Prop} :
    (∃ x, (areaRead area i).bind next = some x ∧ P x) ↔
      i + 1 ≤ area.length ∧ ∃ x, next (octet area i) = some x ∧ P x := by
  by_cases hinside : i < area.length
  · rw [read_octet hinside, Option.bind_some]
    exact (and_iff_right hinside).symm
  · rw [read_outside hinside, Option.bind_none]
    constructor
    · rintro ⟨x, hx, -⟩
      cases hx
    · rintro ⟨hin, -⟩
      exact absurd hin hinside

/-- Fields that can be read are shown from inside the option if they end in it. -/
theorem fits_iff {shown : Shown} {offset : Nat} (positive : 0 < left)
    (readable : Readable (areaRead area) (start + offset) (wordBytes left))
    (covers : Covers (fields shown) (start + offset) (start + offset + wordBytes left)) :
    Within ⟨start, olen, shown⟩ ↔ Fits area start olen (offset + wordBytes left) := by
  have hread := (readable_area (wordBytes_pos positive)).mp readable
  have hwithin : Within ⟨start, olen, shown⟩ ↔
      start + offset + wordBytes left ≤ start + olen :=
    covers.within_iff (Nat.le_add_right start offset)
  rw [hwithin, Fits]
  omega

theorem within_of_none {shown : Shown} (none : fields shown = []) :
    Within ⟨start, olen, shown⟩ := by
  intro field mem
  rw [none] at mem
  cases mem

/-- A route from `offset` on. -/
theorem walkRoute_area {offset : Nat} {shown : List Field → Shown} (positive : 0 < left)
    (same : ∀ addresses, fields (shown addresses) = addresses) :
    (∃ addresses, walkRoute (areaRead area) (start + offset) left = some addresses ∧
        Within ⟨start, olen, shown addresses⟩) ↔
      Fits area start olen (offset + wordBytes left) := by
  constructor
  · rintro ⟨addresses, haddresses, hwithin⟩
    obtain ⟨hreadable, hcovers⟩ := walkRoute_spec positive haddresses
    rw [← same addresses] at hcovers
    exact (fits_iff positive hreadable hcovers).mp hwithin
  · intro hfits
    have hreadable : Readable (areaRead area) (start + offset) (wordBytes left) := by
      rw [readable_area (wordBytes_pos positive), Nat.add_assoc]
      exact hfits.2
    obtain ⟨addresses, haddresses⟩ := walkRoute_of_readable positive hreadable
    obtain ⟨-, hcovers⟩ := walkRoute_spec positive haddresses
    rw [← same addresses] at hcovers
    exact ⟨addresses, haddresses, (fits_iff positive hreadable hcovers).mpr hfits⟩

/-- Times from the fifth byte on. -/
theorem walkTimes_area {addressed : Bool} {overflow : Nat} (positive : 0 < left) :
    (∃ stamps, walkTimes (areaRead area) addressed (start + 4) left 0 0 = some stamps ∧
        Within ⟨start, olen, .times stamps overflow⟩) ↔
      Fits area start olen (4 + wordBytes left) := by
  constructor
  · rintro ⟨stamps, hstamps, hwithin⟩
    obtain ⟨hreadable, hcovers⟩ := walkTimes_spec positive hstamps
    change Covers (fields (.times stamps overflow)) _ _ at hcovers
    exact (fits_iff positive hreadable hcovers).mp hwithin
  · intro hfits
    have hreadable : Readable (areaRead area) (start + 4) (wordBytes left) := by
      rw [readable_area (wordBytes_pos positive), Nat.add_assoc]
      exact hfits.2
    obtain ⟨stamps, hstamps⟩ := walkTimes_of_readable positive hreadable
    obtain ⟨-, hcovers⟩ := walkTimes_spec positive hstamps
    change Covers (fields (.times stamps overflow)) _ _ at hcovers
    exact ⟨stamps, hstamps, (fits_iff positive hreadable hcovers).mpr hfits⟩

/-- A source route. -/
theorem walkSourceRoute_area {strict : Bool} (inside : start + 1 < area.length)
    (length : (octet area (start + 1)).toNat = olen) :
    (∃ shown, walkSourceRoute (areaRead area) strict start = some shown ∧
        Within ⟨start, olen, shown⟩) ↔
      olen ≤ 4 ∨ Fits area start olen (2 + wordBytes (olen - 4)) := by
  rw [walkSourceRoute, read_octet inside, Option.bind_eq_bind, Option.bind_some, length]
  have hoffset : IPOPT_MINOFF.toNat = 4 := rfl
  rw [hoffset]
  by_cases hroute : olen > 4
  · have hpositive : 0 < olen - 4 := by omega
    rw [if_pos hroute, or_iff_right (Nat.not_le.mpr hroute), ← walkRoute_area hpositive
      (fun addresses => (rfl : fields (.sourceRoute strict addresses) = addresses))]
    constructor
    · rintro ⟨shown, hshown, hwithin⟩
      obtain ⟨addresses, haddresses, h⟩ := Option.bind_eq_some_iff.mp hshown
      cases h
      exact ⟨addresses, haddresses, hwithin⟩
    · rintro ⟨addresses, haddresses, hwithin⟩
      exact ⟨_, Option.bind_eq_some_iff.mpr ⟨addresses, haddresses, rfl⟩, hwithin⟩
  · rw [if_neg hroute]
    constructor
    · exact fun _ => .inl (Nat.not_lt.mp hroute)
    · exact fun _ => ⟨.sourceRoute strict [], rfl, within_of_none rfl⟩

/-- The times of an option. -/
theorem walkTimestamp_area (inside : start + 1 < area.length) :
    (∃ shown, walkTimestamp (areaRead area) start = some shown ∧
        Within ⟨start, olen, shown⟩) ↔
      start + 3 ≤ area.length ∧
        (timesFilled area start = 0 ∨
          Fits area start olen (4 + wordBytes (timesFilled area start))) := by
  rw [walkTimestamp, read_octet inside, Option.bind_eq_bind, Option.bind_some,
    Option.bind_eq_bind, bind_read_iff]
  apply and_congr_right
  intro hroom
  have hfilled : filledBytes 5 (octet area (start + 1)) (octet area (start + 2)) =
      timesFilled area start := rfl
  rw [hfilled]
  by_cases hnone : timesFilled area start = 0
  · rw [if_pos hnone]
    constructor
    · exact fun _ => .inl hnone
    · exact fun _ => ⟨.nothing, rfl, within_of_none rfl⟩
  have hpositive : 0 < timesFilled area start := Nat.pos_of_ne_zero hnone
  rw [if_neg hnone, or_iff_right hnone, bind_read_iff]
  constructor
  · rintro ⟨-, shown, hshown, hwithin⟩
    obtain ⟨stamps, hstamps, h⟩ := Option.bind_eq_some_iff.mp hshown
    cases h
    exact (walkTimes_area hpositive).mp ⟨stamps, hstamps, hwithin⟩
  · intro hfits
    obtain ⟨stamps, hstamps, hwithin⟩ := (walkTimes_area hpositive).mpr hfits
    have hflags : start + 3 + 1 ≤ area.length :=
      Nat.le_trans (Nat.add_le_add_left (Nat.le_add_right 4 _) start) hfits.2
    exact ⟨hflags, _, Option.bind_eq_some_iff.mpr ⟨stamps, hstamps, rfl⟩, hwithin⟩

/-- The comparison with the old route. -/
theorem sameRoute_area (positive : 0 < n) :
    (start + n ≤ area.length → sameRoute (areaRead area) start n oldRr =
      some (decide (memory (octet area) start n = oldRr))) ∧
    (¬start + n ≤ area.length → ∀ same, sameRoute (areaRead area) start n oldRr = some same →
      same = false) := by
  constructor
  · intro hle
    rw [sameRoute]
    by_cases hlength : n = oldRr.length
    · rw [if_pos hlength, (readBytes_area positive).1 hle, Option.map_some]
    · rw [if_neg hlength, decide_eq_false]
      rintro rfl
      exact hlength (length_memory (octet area) start n).symm
  · intro hgt same h
    rw [sameRoute] at h
    split at h
    · rw [(readBytes_area positive).2 hgt] at h
      cases h
    · exact (Option.some.inj h).symm

/-- A record route, and the route that is kept behind it. -/
theorem walkRecordRoute_area (inside : start + 1 < area.length) :
    (∃ walk, walkRecordRoute (areaRead area) false start oldRr = some walk ∧
        Within ⟨start, olen, walk.1⟩) ↔
      start + 3 ≤ area.length ∧
        (routeFilled area start = 0 ∨
          start + 2 + routeFilled area start ≤ area.length ∧
            memory (octet area) (start + 2) (routeFilled area start) = oldRr ∨
          routeFilled area start ≤ MAX_IPOPTLEN ∧
            Fits area start olen (3 + wordBytes (routeFilled area start))) := by
  rw [walkRecordRoute, read_octet inside, Option.bind_eq_bind, Option.bind_some,
    Option.bind_eq_bind, bind_read_iff]
  apply and_congr_right
  intro hroom
  have hfilled : filledBytes IPOPT_MINOFF.toNat (octet area (start + 1))
      (octet area (start + 2)) = routeFilled area start := rfl
  rw [hfilled]
  by_cases hnone : routeFilled area start = 0
  · rw [if_pos hnone]
    constructor
    · exact fun _ => .inl hnone
    · exact fun _ => ⟨(.nothing, oldRr), rfl, within_of_none rfl⟩
  have hpositive : 0 < routeFilled area start := Nat.pos_of_ne_zero hnone
  have hless : routeFilled area start ≤ wordBytes (routeFilled area start) := by
    rw [wordBytes]
    omega
  obtain ⟨hsame, hbeyond⟩ := @sameRoute_area area oldRr (start + 2) _ hpositive
  have hroute := @walkRoute_area area start olen _ 3 .route hpositive fun _ => rfl
  rw [if_neg hnone, or_iff_right hnone]
  constructor
  · rintro ⟨walk, hwalk, hwithin⟩
    obtain ⟨same, hcompare, h⟩ := Option.bind_eq_some_iff.mp hwalk
    by_cases hequal : same = true
    · -- They are compared, so all of these bytes are there.
      by_cases hin : start + 2 + routeFilled area start ≤ area.length
      · rw [hsame hin] at hcompare
        rw [← Option.some.inj hcompare] at hequal
        exact .inl ⟨hin, of_decide_eq_true hequal⟩
      · rw [hbeyond hin same hcompare] at hequal
        cases hequal
    rw [if_neg fun hboth => hequal hboth.1] at h
    by_cases hcopy : routeFilled area start ≤ MAX_IPOPTLEN
    · rw [if_pos hcopy] at h
      obtain ⟨copied, -, h⟩ := Option.bind_eq_some_iff.mp h
      obtain ⟨addresses, haddresses, h⟩ := Option.bind_eq_some_iff.mp h
      cases h
      exact .inr ⟨hcopy, hroute.mp ⟨addresses, haddresses, hwithin⟩⟩
    · rw [if_neg hcopy] at h
      cases h
  · intro hproper
    by_cases hequal : start + 2 + routeFilled area start ≤ area.length ∧
        memory (octet area) (start + 2) (routeFilled area start) = oldRr
    · refine ⟨(.sameRoute, oldRr), ?_, within_of_none rfl⟩
      rw [hsame hequal.1, Option.bind_some,
        if_pos ⟨decide_eq_true hequal.2, Bool.false_ne_true⟩]
      rfl
    obtain ⟨hcopy, hfits⟩ := hproper.resolve_left hequal
    have hbytes : start + 2 + routeFilled area start ≤ area.length := by
      have hend := hfits.2
      omega
    have hother : memory (octet area) (start + 2) (routeFilled area start) ≠ oldRr :=
      fun hmemory => hequal ⟨hbytes, hmemory⟩
    obtain ⟨addresses, haddresses, hwithin⟩ := hroute.mpr hfits
    refine ⟨(.route addresses, memory (octet area) (start + 2) (routeFilled area start)), ?_,
      hwithin⟩
    rw [hsame hbytes, Option.bind_some,
      if_neg fun hboth => hother (of_decide_eq_true hboth.1), if_pos hcopy,
      (readBytes_area hpositive).1 hbytes, Option.bind_eq_bind, Option.bind_some, haddresses]
    rfl

theorem walkRecordRoute_kept {walk : Shown × List UInt8} (type : octet area start = IPOPT_RR)
    (h : walkRecordRoute (areaRead area) false start oldRr = some walk) :
    walk.2 = keptRoute area start oldRr := by
  obtain ⟨j, hj, h⟩ := Option.bind_eq_some_iff.mp h
  obtain ⟨pointer, hpointer, h⟩ := Option.bind_eq_some_iff.mp h
  have hfilled : filledBytes IPOPT_MINOFF.toNat j pointer = routeFilled area start := by
    rw [routeFilled, agrees_area area _ j hj, agrees_area area _ pointer hpointer]
  rw [hfilled] at h
  rw [keptRoute]
  by_cases hnone : routeFilled area start = 0
  · rw [if_pos hnone] at h
    cases h
    rw [if_neg fun hboth => hboth.2 hnone]
  rw [if_neg hnone] at h
  rw [if_pos ⟨type, hnone⟩]
  obtain ⟨same, hsame, h⟩ := Option.bind_eq_some_iff.mp h
  by_cases hequal : same = true ∧ ¬false = true
  · rw [if_pos hequal] at h
    cases h
    exact ((sameRoute_eq (agrees_area area) hsame).mp hequal.1).symm
  rw [if_neg hequal] at h
  by_cases hcopy : routeFilled area start ≤ MAX_IPOPTLEN
  · rw [if_pos hcopy] at h
    obtain ⟨route, hroute, h⟩ := Option.bind_eq_some_iff.mp h
    obtain ⟨addresses, -, h⟩ := Option.bind_eq_some_iff.mp h
    cases h
    exact readBytes_memory (agrees_area area) hroute
  · rw [if_neg hcopy] at h
    cases h

/-- The kept route goes with what is shown. -/
theorem exists_walk_iff {walk : Option Shown} :
    (∃ r, (walk.bind fun shown => some (shown, oldRr)) = some r ∧ Within ⟨start, olen, r.1⟩) ↔
      ∃ shown, walk = some shown ∧ Within ⟨start, olen, shown⟩ := by
  constructor
  · rintro ⟨r, hr, hwithin⟩
    obtain ⟨shown, hshown, h⟩ := Option.bind_eq_some_iff.mp hr
    cases h
    exact ⟨shown, hshown, hwithin⟩
  · rintro ⟨shown, hshown, hwithin⟩
    exact ⟨(shown, oldRr), by rw [hshown]; rfl, hwithin⟩

/-- An option whose type and length have been read. -/
theorem walkOption_area (inside : start + 1 < area.length)
    (length : (octet area (start + 1)).toNat = olen) :
    (∃ walk, walkOption (areaRead area) false start oldRr = some walk ∧
        Within ⟨start, olen, walk.1⟩) ↔ ProperOption area start olen oldRr := by
  have hstart : start < area.length := Nat.lt_of_succ_lt inside
  rw [walkOption, read_octet hstart, Option.bind_eq_bind, Option.bind_some, ProperOption]
  by_cases hsource : octet area start = IPOPT_SSRR ∨ octet area start = IPOPT_LSRR
  · rw [if_pos hsource, if_pos hsource, ← walkSourceRoute_area inside length]
    exact exists_walk_iff
  rw [if_neg hsource, if_neg hsource]
  by_cases hrecord : octet area start = IPOPT_RR
  · rw [if_pos hrecord, if_pos hrecord]
    exact walkRecordRoute_area inside
  rw [if_neg hrecord, if_neg hrecord]
  by_cases htimes : octet area start = IPOPT_TS
  · rw [if_pos htimes, if_pos htimes, ← walkTimestamp_area inside]
    exact exists_walk_iff
  · rw [if_neg htimes, if_neg htimes, iff_true]
    exact ⟨(.unknown (octet area start), oldRr), rfl, fun field mem => absurd mem List.not_mem_nil⟩

theorem walkOption_kept {walk : Shown × List UInt8}
    (h : walkOption (areaRead area) false start oldRr = some walk) :
    walk.2 = keptRoute area start oldRr := by
  obtain ⟨type, htype, h⟩ := Option.bind_eq_some_iff.mp h
  obtain rfl := agrees_area area _ type htype
  by_cases hrecord : octet area start = IPOPT_RR
  · have hsource : ¬(octet area start = IPOPT_SSRR ∨ octet area start = IPOPT_LSRR) := by
      rw [hrecord]
      decide
    rw [if_neg hsource, if_pos hrecord] at h
    exact walkRecordRoute_kept hrecord h
  rw [keptRoute, if_neg fun hboth => hrecord hboth.1]
  rw [if_neg hrecord] at h
  split at h
  · obtain ⟨shown, -, h⟩ := Option.bind_eq_some_iff.mp h
    cases h
    rfl
  split at h
  · obtain ⟨shown, -, h⟩ := Option.bind_eq_some_iff.mp h
    cases h
    rfl
  · cases h
    rfl

end Option

section Run

variable {area : List UInt8}

/-- What is shown first, and what the walk goes on to show. -/
theorem exists_walk_cons {rest : Option (List ShownOption × List UInt8)} {first : ShownOption} :
    (∃ walk, (rest.bind fun rest => some (first :: rest.1, rest.2)) = some walk ∧
        ∀ option ∈ walk.1, Within option) ↔
      Within first ∧ ∃ walk, rest = some walk ∧ ∀ option ∈ walk.1, Within option := by
  constructor
  · rintro ⟨walk, hwalk, hwithin⟩
    obtain ⟨later, hlater, h⟩ := Option.bind_eq_some_iff.mp hwalk
    cases h
    obtain ⟨hfirst, hrest⟩ := List.forall_mem_cons.mp hwithin
    exact ⟨hfirst, later, hlater, hrest⟩
  · rintro ⟨hfirst, later, hlater, hrest⟩
    refine ⟨(first :: later.1, later.2), ?_, List.forall_mem_cons.mpr ⟨hfirst, hrest⟩⟩
    rw [hlater]
    rfl

/-- The walk from an option on. -/
theorem walkOptions_area : ∀ {totlen optptr : Nat} {oldRr : List UInt8},
    (∃ walk, walkOptions (areaRead area) false optptr totlen oldRr = some walk ∧
        ∀ option ∈ walk.1, Within option) ↔ Proper area optptr totlen oldRr := by
  intro totlen optptr oldRr
  have hdistinct : IPOPT_EOL ≠ IPOPT_NOP := by decide
  rw [walkOptions, Proper]
  by_cases hend : totlen = 0
  · rw [if_pos hend, if_pos hend, iff_true]
    exact ⟨([], oldRr), rfl, fun option mem => absurd mem List.not_mem_nil⟩
  rw [if_neg hend, if_neg hend, Option.bind_eq_bind, bind_read_iff]
  have hnone : ∀ option ∈ ([] : List ShownOption), Within option :=
    fun option mem => absurd mem List.not_mem_nil
  by_cases heol : octet area optptr = IPOPT_EOL
  · have hnop : octet area optptr ≠ IPOPT_NOP := by
      rw [heol]
      exact hdistinct
    rw [if_pos heol, if_neg hnop, if_pos heol]
    exact and_iff_left ⟨([], oldRr), rfl, hnone⟩
  rw [if_neg heol]
  by_cases hnop : octet area optptr = IPOPT_NOP
  · rw [if_pos hnop, if_pos hnop, ← @walkOptions_area (totlen - 1) (optptr + 1) oldRr]
    refine and_congr_right fun _ => exists_walk_cons.trans (and_iff_right fun field mem => ?_)
    cases mem
  rw [if_neg hnop, if_neg hnop, if_neg heol, Option.bind_eq_bind, bind_read_iff,
    and_iff_right_of_imp fun h => Nat.le_of_succ_le h.1]
  by_cases hbreak : (octet area (optptr + 1)).toNat < 2 ∨ (octet area (optptr + 1)).toNat > totlen
  · rw [if_pos hbreak, if_pos hbreak]
    exact and_iff_left ⟨([], oldRr), rfl, hnone⟩
  rw [if_neg hbreak, if_neg hbreak]
  apply and_congr_right
  intro hlength
  rw [← walkOption_area hlength rfl]
  cases hoption : walkOption (areaRead area) false optptr oldRr with
  | none =>
      constructor
      · rintro ⟨walk, hwalk, -⟩
        cases hwalk
      · rintro ⟨⟨walk, hwalk, -⟩, -⟩
        cases hwalk
  | some option =>
      rw [← walkOption_kept hoption, ← walkOptions_area]
      refine exists_walk_cons.trans (and_congr_left fun _ => ?_)
      constructor
      · exact fun hwithin => ⟨option, rfl, hwithin⟩
      · rintro ⟨walk, hwalk, hwithin⟩
        rw [Option.some.inj hwalk]
        exact hwithin
termination_by totlen => totlen

end Run

/-- The walk over the options of a reply stays inside if and only if these are proper. -/
theorem options_inside_iff (options : ReplyOptions) (oldRr : List UInt8) :
    Inside options oldRr ↔ Proper options.bytes 0 options.olen oldRr := walkOptions_area

section Outside

variable {area oldRr : List UInt8} {optptr totlen : Nat}

theorem Proper.of_nop (proper : Proper area optptr totlen oldRr) (more : totlen ≠ 0)
    (nop : octet area optptr = IPOPT_NOP) :
    optptr < area.length ∧ Proper area (optptr + 1) (totlen - 1) oldRr := by
  rwa [Proper, if_neg more, if_pos nop] at proper

/-- An option whose length fits into what is left. -/
theorem Proper.of_option (proper : Proper area optptr totlen oldRr) (more : totlen ≠ 0)
    (option : octet area optptr ≠ IPOPT_NOP ∧ octet area optptr ≠ IPOPT_EOL)
    (length : ¬((octet area (optptr + 1)).toNat < 2 ∨ (octet area (optptr + 1)).toNat > totlen)) :
    ProperOption area optptr (octet area (optptr + 1)).toNat oldRr := by
  rw [Proper, if_neg more, if_neg option.1, if_neg option.2, if_neg length] at proper
  exact proper.2.1

end Outside

/-- A source route of five bytes has a quarter of an address, and four NOPs in a control message
are followed by no end. -/
theorem options_outside :
    ¬Inside (.header [IPOPT_LSRR, 5, 4, 10, 0, 0, 0, 0]) [] ∧
      ¬Inside (.retopts (some [IPOPT_NOP, IPOPT_NOP, IPOPT_NOP, IPOPT_NOP])) [] := by
  constructor
  · intro hinside
    have hproper := walkOptions_area.mp hinside
    have hoption := hproper.of_option (by decide) (by decide) (by decide)
    rw [ProperOption, if_pos (by decide)] at hoption
    rcases hoption with hnone | ⟨hfits, -⟩
    · exact absurd hnone (by decide)
    · exact absurd hfits (by decide)
  · intro hinside
    have hproper := walkOptions_area.mp hinside
    have hfirst := (hproper.of_nop (by decide) (by decide)).2
    have hsecond := (hfirst.of_nop (by decide) (by decide)).2
    have hthird := (hsecond.of_nop (by decide) (by decide)).2
    have hfourth := (hthird.of_nop (by decide) (by decide)).2
    -- Sixteen bytes are left, says `cmsg_len`.
    rw [Proper, if_neg (by decide), if_neg (by decide), if_pos (by decide)] at hfourth
    exact absurd hfourth (by decide)

end Coping.OptionBounds
