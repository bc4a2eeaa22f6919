import Coping.Ping.OptionWalk

/-!
# The text of the options

The walk over the options shows what `pr_options` prints. That holds of every walk that has a
result: one over a memory of any size, and one over the bytes of the options alone.
-/

namespace Coping.OptionWalk

open CFormat

section Text

variable {read : ReadByte} {cp : Nat → UInt8} (prAddr : PrAddr) {optFlood : Bool}
variable {oldRr oldRr' bytes : List UInt8} {fields : List Field} {field : Field} {shown : Shown}

/-- The memory has the bytes that are read. -/
def Agrees (read : ReadByte) (cp : Nat → UInt8) : Prop := ∀ i c, read i = some c → cp i = c

theorem readBytes_memory (agrees : Agrees read cp) : ∀ {n start : Nat} {bytes : List UInt8},
    readBytes read start n = some bytes → bytes = memory cp start n
  | 0, start, bytes, h => by
      rw [readBytes] at h
      exact (Option.some.inj h).symm
  | n + 1, start, bytes, h => by
      rw [readBytes] at h
      obtain ⟨c, hc, h⟩ := Option.bind_eq_some_iff.mp h
      obtain ⟨rest, hrest, h⟩ := Option.bind_eq_some_iff.mp h
      rw [memory_succ, agrees start c hc, ← readBytes_memory agrees hrest]
      exact (Option.some.inj h).symm

theorem readField_text (agrees : Agrees read cp) {start : Nat}
    (h : readField read start = some field) :
    field.bytes = memory cp start 4 ∧ field.text prAddr = addressText prAddr cp start := by
  obtain ⟨bytes, hbytes, h⟩ := Option.bind_eq_some_iff.mp h
  cases h
  have hmemory := readBytes_memory agrees hbytes
  refine ⟨hmemory, ?_⟩
  rw [Field.text, addressText, ← hmemory]

theorem walkRoute_text (agrees : Agrees read cp) : ∀ {left start : Nat} {fields : List Field},
    walkRoute read start left = some fields →
    routeText prAddr cp start left = routeLines prAddr fields := by
  intro left start fields h
  rw [walkRoute] at h
  obtain ⟨field, hfield, h⟩ := Option.bind_eq_some_iff.mp h
  have htext := (readField_text prAddr agrees hfield).2
  rw [routeText, ← htext]
  by_cases hlast : left ≤ 4
  · rw [if_pos hlast] at h
    cases h
    rw [if_pos hlast, routeLines, List.flatMap_singleton, List.append_nil]
  · rw [if_neg hlast] at h
    obtain ⟨rest, hrest, h⟩ := Option.bind_eq_some_iff.mp h
    cases h
    rw [if_neg hlast, walkRoute_text agrees hrest, routeLines, routeLines, List.flatMap_cons]
termination_by left => left

theorem absolute_text :
    ascii " absolute not-standard" = ascii " absolute" ++ ascii " not-standard" := by decide

/-- What is shown of a time, and what comes of the standard and the other times. -/
theorem showTime_text (field : Field) (stdtime nonstdtime : Nat) :
    timeOption (timeValue field.bytes) stdtime nonstdtime =
      ((showTime field stdtime nonstdtime).1.text, (showTime field stdtime nonstdtime).2) := by
  rw [timeOption, showTime]
  split
  · rw [TimeShown.text]
    by_cases hfirst : nonstdtime = 0
    · simp only [hfirst, decide_true, if_true, Nat.cast_zero, Int.sub_zero, absolute_text,
        List.append_assoc, Bool.false_eq_true, if_false]
    · simp only [hfirst, decide_false, Bool.false_eq_true, if_false, List.append_nil]
  · rw [TimeShown.text]
    by_cases hfirst : stdtime = 0
    · simp only [hfirst, decide_true, if_true, Nat.cast_zero, Int.sub_zero, List.append_nil]
    · simp only [hfirst, decide_false, Bool.false_eq_true, if_false, if_true, List.append_nil]

/-- The text of the times, by what is read. -/
theorem timesText_eq (addressed : Bool) (start left stdtime nonstdtime : Nat) :
    timesText prAddr cp addressed start left stdtime nonstdtime =
      (if addressed then addressText prAddr cp start else []) ++
        if left ≤ stampSkip addressed then []
        else
          (timeOption (timeValue (memory cp (start + stampSkip addressed) 4))
            stdtime nonstdtime).1 ++ [0x0a] ++
            if left ≤ stampSkip addressed + 4 then []
            else
              timesText prAddr cp addressed (start + stampSkip addressed + 4)
                (left - stampSkip addressed - 4)
                (timeOption (timeValue (memory cp (start + stampSkip addressed) 4))
                  stdtime nonstdtime).2.1
                (timeOption (timeValue (memory cp (start + stampSkip addressed) 4))
                  stdtime nonstdtime).2.2 := by
  rw [timesText]
  change (if left ≤ stampSkip addressed then _ else _) = _
  split
  · rw [List.append_nil]
  · rw [← List.append_assoc, ← List.append_assoc]
    rfl

theorem stampAddress_text (agrees : Agrees read cp) {addressed : Bool} {start : Nat}
    {address : List Stamp} (h : stampAddress read addressed start = some address) :
    (if addressed then addressText prAddr cp start else []) =
      address.flatMap (Stamp.text prAddr) := by
  cases addressed with
  | false =>
      cases h
      rfl
  | true =>
      obtain ⟨field, hfield, hfound⟩ := Option.map_eq_some_iff.mp h
      rw [← hfound, List.flatMap_singleton]
      exact (readField_text prAddr agrees hfield).2.symm

theorem walkTimes_text (agrees : Agrees read cp) {addressed : Bool} :
    ∀ {left start stdtime nonstdtime : Nat} {stamps : List Stamp},
    walkTimes read addressed start left stdtime nonstdtime = some stamps →
    timesText prAddr cp addressed start left stdtime nonstdtime =
      stamps.flatMap (Stamp.text prAddr) := by
  intro left start stdtime nonstdtime stamps h
  rw [walkTimes] at h
  obtain ⟨address, haddress, h⟩ := Option.bind_eq_some_iff.mp h
  rw [timesText_eq, stampAddress_text prAddr agrees haddress]
  by_cases hshort : left ≤ stampSkip addressed
  · rw [if_pos hshort] at h ⊢
    cases h
    rw [List.append_nil]
  · rw [if_neg hshort] at h ⊢
    obtain ⟨field, hfield, h⟩ := Option.bind_eq_some_iff.mp h
    obtain ⟨hbytes, -⟩ := readField_text prAddr agrees hfield
    rw [← hbytes, showTime_text]
    by_cases hlast : left ≤ stampSkip addressed + 4
    · rw [if_pos hlast] at h ⊢
      cases h
      rw [List.flatMap_append, List.flatMap_singleton, List.append_nil]
      rfl
    · rw [if_neg hlast] at h ⊢
      obtain ⟨rest, hrest, h⟩ := Option.bind_eq_some_iff.mp h
      cases h
      rw [walkTimes_text agrees hrest, List.flatMap_append, List.flatMap_cons]
      rfl
termination_by left => left
decreasing_by omega

theorem filledBytes_eq_zero {offset : Nat} {j pointer : UInt8} :
    filledBytes offset j pointer = 0 ↔ min pointer.toNat j.toNat ≤ offset := by
  rw [filledBytes]
  exact Nat.sub_eq_zero_iff_le

/-- The routes are compared whenever they are as long. -/
theorem sameRoute_eq (agrees : Agrees read cp) {start i : Nat} {same : Bool}
    (h : sameRoute read start i oldRr = some same) :
    same = true ↔ memory cp start i = oldRr := by
  rw [sameRoute] at h
  by_cases hlength : i = oldRr.length
  · rw [if_pos hlength] at h
    obtain ⟨bytes, hbytes, hsame⟩ := Option.map_eq_some_iff.mp h
    rw [← hsame, ← readBytes_memory agrees hbytes, decide_eq_true_iff]
  · rw [if_neg hlength] at h
    cases h
    constructor
    · intro hfalse
      cases hfalse
    · intro hmemory
      rw [← hmemory, length_memory] at hlength
      exact absurd rfl hlength

theorem walkRecordRoute_text (agrees : Agrees read cp) {start : Nat}
    (type : cp start = IPOPT_RR)
    (h : walkRecordRoute read optFlood start oldRr = some (shown, oldRr')) :
    prOption prAddr cp optFlood start oldRr = (shown.text prAddr, oldRr') := by
  obtain ⟨j, hj, h⟩ := Option.bind_eq_some_iff.mp h
  obtain ⟨pointer, hpointer, h⟩ := Option.bind_eq_some_iff.mp h
  have hroute : ¬(IPOPT_RR = IPOPT_SSRR ∨ IPOPT_RR = IPOPT_LSRR) := by decide
  rw [prOption, type, if_neg hroute, if_pos rfl, agrees _ j hj, agrees _ pointer hpointer]
  by_cases hnone : filledBytes IPOPT_MINOFF.toNat j pointer = 0
  · rw [if_pos hnone] at h
    cases h
    exact if_pos (filledBytes_eq_zero.mp hnone)
  · rw [if_neg hnone] at h
    obtain ⟨same, hsame, h⟩ := Option.bind_eq_some_iff.mp h
    have hequal := sameRoute_eq agrees hsame
    refine (if_neg fun hle => hnone (filledBytes_eq_zero.mpr hle)).trans ?_
    by_cases hshort : same = true ∧ ¬optFlood
    · rw [if_pos hshort] at h
      cases h
      exact if_pos ⟨hequal.mp hshort.1, hshort.2⟩
    · rw [if_neg hshort] at h
      refine (if_neg fun hboth => hshort ⟨hequal.mpr hboth.1, hboth.2⟩).trans ?_
      by_cases hroom : filledBytes IPOPT_MINOFF.toNat j pointer ≤ MAX_IPOPTLEN
      · rw [if_pos hroom] at h
        obtain ⟨route, hroute, h⟩ := Option.bind_eq_some_iff.mp h
        obtain ⟨addresses, haddresses, h⟩ := Option.bind_eq_some_iff.mp h
        cases h
        rw [readBytes_memory agrees hroute, Shown.text, ← walkRoute_text prAddr agrees haddresses]
        rfl
      · rw [if_neg hroom] at h
        cases h

theorem walkSourceRoute_text (agrees : Agrees read cp) {start : Nat}
    (type : cp start = IPOPT_SSRR ∨ cp start = IPOPT_LSRR)
    (h : walkSourceRoute read (cp start = IPOPT_SSRR) start = some shown) :
    prOption prAddr cp optFlood start oldRr = (shown.text prAddr, oldRr) := by
  obtain ⟨j, hj, h⟩ := Option.bind_eq_some_iff.mp h
  rw [prOption, if_pos type, agrees _ j hj]
  by_cases hroute : j.toNat > IPOPT_MINOFF.toNat
  · rw [if_pos hroute] at h
    obtain ⟨addresses, haddresses, h⟩ := Option.bind_eq_some_iff.mp h
    cases h
    rw [if_pos hroute, walkRoute_text prAddr agrees haddresses, Shown.text]
    by_cases hstrict : cp start = IPOPT_SSRR
    · rw [if_pos hstrict, decide_eq_true hstrict, if_pos rfl]
    · rw [if_neg hstrict, decide_eq_false hstrict, if_neg Bool.false_ne_true]
  · rw [if_neg hroute] at h
    cases h
    rw [if_neg hroute, Shown.text, routeLines, List.flatMap_nil]
    by_cases hstrict : cp start = IPOPT_SSRR
    · rw [if_pos hstrict, decide_eq_true hstrict, if_pos rfl]
    · rw [if_neg hstrict, decide_eq_false hstrict, if_neg Bool.false_ne_true]

theorem walkTimestamp_text (agrees : Agrees read cp) {start : Nat}
    (type : cp start = IPOPT_TS) (h : walkTimestamp read start = some shown) :
    prOption prAddr cp optFlood start oldRr = (shown.text prAddr, oldRr) := by
  obtain ⟨j, hj, h⟩ := Option.bind_eq_some_iff.mp h
  obtain ⟨pointer, hpointer, h⟩ := Option.bind_eq_some_iff.mp h
  have hroute : ¬(IPOPT_TS = IPOPT_SSRR ∨ IPOPT_TS = IPOPT_LSRR) := by decide
  have hrecord : IPOPT_TS ≠ IPOPT_RR := by decide
  rw [prOption, type, if_neg hroute, if_neg hrecord, if_pos rfl, agrees _ j hj,
    agrees _ pointer hpointer]
  by_cases hnone : filledBytes 5 j pointer = 0
  · rw [if_pos hnone] at h
    cases h
    exact if_pos (filledBytes_eq_zero.mp hnone)
  · rw [if_neg hnone] at h
    obtain ⟨flags, hflags, h⟩ := Option.bind_eq_some_iff.mp h
    obtain ⟨stamps, hstamps, h⟩ := Option.bind_eq_some_iff.mp h
    cases h
    refine (if_neg fun hle => hnone (filledBytes_eq_zero.mpr hle)).trans ?_
    rw [agrees _ flags hflags, Shown.text, ← walkTimes_text prAddr agrees hstamps]
    have hcount : (flags >>> 4).toNat ≠ 0 ↔ flags >>> 4 ≠ 0 := by
      rw [Ne, ← UInt8.toNat_zero, UInt8.toNat_inj]
    rw [if_congr hcount rfl rfl]
    rfl

theorem walkOption_text (agrees : Agrees read cp) {start : Nat}
    (h : walkOption read optFlood start oldRr = some (shown, oldRr')) :
    prOption prAddr cp optFlood start oldRr = (shown.text prAddr, oldRr') := by
  obtain ⟨type, htype, h⟩ := Option.bind_eq_some_iff.mp h
  obtain rfl := agrees _ type htype
  by_cases hsource : cp start = IPOPT_SSRR ∨ cp start = IPOPT_LSRR
  · rw [if_pos hsource] at h
    obtain ⟨shown', hshown, h⟩ := Option.bind_eq_some_iff.mp h
    cases h
    exact walkSourceRoute_text prAddr agrees hsource hshown
  rw [if_neg hsource] at h
  by_cases hrecord : cp start = IPOPT_RR
  · rw [if_pos hrecord] at h
    exact walkRecordRoute_text prAddr agrees hrecord h
  rw [if_neg hrecord] at h
  by_cases htimes : cp start = IPOPT_TS
  · rw [if_pos htimes] at h
    obtain ⟨shown', hshown, h⟩ := Option.bind_eq_some_iff.mp h
    cases h
    exact walkTimestamp_text prAddr agrees htimes hshown
  · rw [if_neg htimes] at h
    cases h
    rw [prOption, if_neg hsource, if_neg hrecord, if_neg htimes, Shown.text]

/-- The text of the options is that of what is shown. -/
theorem walkOptions_text (agrees : Agrees read cp) :
    ∀ {totlen optptr : Nat} {oldRr oldRr' : List UInt8} {shown : List ShownOption},
    walkOptions read optFlood optptr totlen oldRr = some (shown, oldRr') →
    prOptions prAddr cp optFlood optptr totlen oldRr = (optionsText prAddr shown, oldRr') := by
  intro totlen optptr oldRr oldRr' shown h
  rw [walkOptions] at h
  by_cases hend : totlen = 0
  · rw [if_pos hend] at h
    cases h
    rw [prOptions, if_pos (.inl hend)]
    rfl
  rw [if_neg hend] at h
  obtain ⟨type, htype, h⟩ := Option.bind_eq_some_iff.mp h
  obtain rfl := agrees _ type htype
  by_cases heol : cp optptr = IPOPT_EOL
  · rw [if_pos heol] at h
    cases h
    rw [prOptions, if_pos (.inr heol)]
    rfl
  have hmore : ¬(totlen = 0 ∨ cp optptr = IPOPT_EOL) := fun hstop => hstop.elim hend heol
  rw [if_neg heol] at h
  rw [prOptions, if_neg hmore]
  by_cases hnop : cp optptr = IPOPT_NOP
  · rw [if_pos hnop] at h
    obtain ⟨rest, hrest, h⟩ := Option.bind_eq_some_iff.mp h
    cases h
    rw [if_pos hnop, walkOptions_text agrees hrest]
    rfl
  rw [if_neg hnop] at h
  obtain ⟨olen, holen, h⟩ := Option.bind_eq_some_iff.mp h
  obtain rfl := agrees _ olen holen
  rw [if_neg hnop]
  by_cases hbreak : (cp (optptr + 1)).toNat < 2 ∨ (cp (optptr + 1)).toNat > totlen
  · rw [if_pos hbreak] at h
    cases h
    exact if_pos hbreak
  · rw [if_neg hbreak] at h
    obtain ⟨option, hoption, h⟩ := Option.bind_eq_some_iff.mp h
    obtain ⟨rest, hrest, h⟩ := Option.bind_eq_some_iff.mp h
    cases h
    refine (if_neg hbreak).trans ?_
    have hlater := walkOptions_text agrees hrest
    rw [walkOption_text prAddr agrees hoption]
    change (_ ++ (prOptions prAddr cp optFlood (optptr + (cp (optptr + 1)).toNat)
        (totlen - (cp (optptr + 1)).toNat) option.2).1,
      (prOptions prAddr cp optFlood (optptr + (cp (optptr + 1)).toNat)
        (totlen - (cp (optptr + 1)).toNat) option.2).2) = _
    rw [hlater]
    rfl
termination_by totlen => totlen

end Text

end Coping.OptionWalk
