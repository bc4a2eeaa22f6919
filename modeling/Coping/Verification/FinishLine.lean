import Coping.Library.JsonObject
import Coping.Library.JsonPlain
import Coping.Ping.Output
import Coping.Verification.JsonBuffer

/-!
# The line of the final statistics

The pieces that three functions append one after the other are an object with members in a
row, except for `pipe`: the comma behind it is for the gap between packets, which is not
always printed. Without that defect the line is right as long as it fits in the buffer and
the counters are in the range of `int`.
-/

namespace Coping.FinishLine

open CInt CFormat JsonBuffer
open Json (quote comma colon space openBrace closeBrace isPlain Member)

/-! ## What is to be printed -/

/-- The numbers of the object are the ones of the run. -/
structure Decoded (rts : PingRts) (v : Json.Value) : Prop where
  transmitted : (v.field JsonKey.transmitted.text).bind Json.Value.int = some rts.ntransmitted
  received : (v.field JsonKey.received.text).bind Json.Value.int = some rts.nreceived
  duplicates : (v.field JsonKey.duplicates.text).bind Json.Value.int = some rts.nrepeats
  corrupted : (v.field JsonKey.corrupted.text).bind Json.Value.int = some rts.nchecksum
  errors : (v.field JsonKey.errors.text).bind Json.Value.int = some rts.nerrors
  pipe : rts.pipesize > 1 →
    (v.field JsonKey.pipe.text).bind Json.Value.int = some rts.pipesize

/-- One line with an object, and with the numbers of the run in it. -/
def ObjectLine (rts : PingRts) (line : List UInt8) : Prop :=
  ∃ body members, line = body ++ [0x0a] ∧ 0x0a ∉ body ∧
    Json.parse line = some (.object members) ∧ Decoded rts (.object members)

/-- Nothing is printed, or such a line. A program that stops has printed nothing. -/
def FinishSound (rts : PingRts) : Except JsonStop (List UInt8 × PingJsonBuffer) → Prop
  | .error stop => stop ≠ .outside
  | .ok (line, _) => line = [] ∨ ObjectLine rts line

/-- The counters are in the range of `int`. -/
def Counted (rts : PingRts) : Prop :=
  ∀ n ∈ [rts.ntransmitted, rts.nreceived, rts.nrepeats, rts.nchecksum, rts.nerrors],
    (n : Int) ≤ intMax

/-- The appends of `construct_json_statistics`. -/
def statisticsAppends (startTime : Timespec) (rts : PingRts) : List Append :=
  let s := jsonStatistics rts (tssub rts.curTime startTime)
  (.atEnd [openBrace] :: statisticsMembers s) ++
    (.atEnd (keyed .rtt (rttText (rttTexts rts))) :: pipeAppends s.pipesize)

/-- The appends of `construct_json_statistics_flood`. -/
def gapAppends (startTime : Timespec) (rts : PingRts) : List Append :=
  if hasGap rts then
    floodAppends (rts.pipesize < 2) (ipgTime (interPacketGap rts (tssub rts.curTime startTime)))
      (ewmaTime rts.rtt)
  else []

def finishAppends (startTime : Timespec) (rts : PingRts) : List Append :=
  statisticsAppends startTime rts ++ gapAppends startTime rts

/-- The length of the object without its closing brace. -/
def finishLength (startTime : Timespec) (rts : PingRts) : Nat :=
  ((finishAppends startTime rts).map Append.text).flatten.length

/-- There is nothing to print, the host name alone is too long, or the text fits. With
`pipe` last, it has to fit except for the comma behind it and the space. -/
def Printable (startTime : Timespec) (rts : PingRts) : Prop :=
  hasTimes rts = false ∨ PING_JSON_MAX ≤ rts.hostname.length + 10 ∨
    Counted rts ∧
      if rts.pipesize > 1 ∧ hasGap rts = false then finishLength startTime rts = PING_JSON_MAX + 1
      else finishLength startTime rts < PING_JSON_MAX

/-! ## Members -/

section Members

variable {rts : PingRts} {startTime : Timespec}

theorem plain_timeText {whole frac : Int} (hwhole : whole.natAbs < 10 ^ 20)
    (hfrac : frac.natAbs < 1000) : (timeText whole frac hwhole hfrac).bytes.all isPlain = true := by
  change (decimal whole ++ 0x2e :: padded3 frac).all isPlain = true
  rw [List.all_append, plain_decimal, List.all_cons, plain_padded3]
  rfl

theorem plain_longTime (x : Int) : (longTime x).bytes.all isPlain = true := plain_timeText _ _

theorem plain_averageTime (x : Int) : (averageTime x).bytes.all isPlain = true :=
  plain_timeText _ _

theorem plain_ewmaTime (rtt : UInt64) : (ewmaTime rtt).bytes.all isPlain = true :=
  plain_timeText _ _

def intMember (key : JsonKey) (x : Int32) : Member :=
  .ofInt key.text x.toInt (JsonKey.plain key)

def timeMember (key : JsonKey) (t : TimeText) (plain : t.bytes.all isPlain = true) : Member :=
  .ofString key.text t.bytes (JsonKey.plain key) plain

def rttMember (rts : PingRts) : Member :=
  .ofObject JsonKey.rtt.text (timeMember .min (longTime rts.tmin) (plain_longTime _))
    [timeMember .avg (averageTime (statisticsAverage rts)) (plain_averageTime _),
      timeMember .max (longTime rts.tmax) (plain_longTime _),
      timeMember .mdev (longTime (llsqrt (statisticsVariance rts))) (plain_longTime _)]
    (JsonKey.plain .rtt)

/-- The members between the host name and `rtt`. -/
def numberMembers (startTime : Timespec) (rts : PingRts) : List Member :=
  let s := jsonStatistics rts (tssub rts.curTime startTime)
  [intMember .transmitted s.transmitted, intMember .received s.received,
    intMember .duplicates s.duplicates, intMember .corrupted s.corrupted,
    intMember .errors s.errors, intMember .loss s.loss, intMember .time s.time]

def pipeMember (rts : PingRts) : Member := intMember .pipe (Int32.ofInt rts.pipesize)

def gapMembers (startTime : Timespec) (rts : PingRts) : List Member :=
  [timeMember .ipg (ipgTime (interPacketGap rts (tssub rts.curTime startTime)))
    (plain_longTime _), timeMember .ewma (ewmaTime rts.rtt) (plain_ewmaTime _)]

def hostMember (rts : PingRts) (plain : rts.hostname.all isPlain = true) : Member :=
  .ofString JsonKey.host.text rts.hostname (JsonKey.plain .host) plain

/-- All members behind the first. -/
def finishMembers (startTime : Timespec) (rts : PingRts) : List Member :=
  numberMembers startTime rts ++ [rttMember rts] ++
    (if rts.pipesize > 1 then [pipeMember rts] else []) ++
    if hasGap rts then gapMembers startTime rts else []

/-- What is behind the members. -/
def trailing (rts : PingRts) : List UInt8 :=
  if rts.pipesize > 1 ∧ hasGap rts = false then [comma, space] else []

@[simp] theorem intMember_text (key : JsonKey) (x : Int32) :
    (intMember key x).text = keyed key (decimal x.toInt) := rfl

@[simp] theorem timeMember_text (key : JsonKey) (t : TimeText)
    (plain : t.bytes.all isPlain = true) :
    (timeMember key t plain).text = keyed key (quoted t.bytes) := rfl

@[simp] theorem hostMember_text (plain : rts.hostname.all isPlain = true) :
    (hostMember rts plain).text = keyed .host (quoted rts.hostname) := rfl

theorem rttMember_text : (rttMember rts).text = keyed .rtt (rttText (rttTexts rts)) := by
  have hobject : rttText (rttTexts rts) = (rttMember rts).written := by
    change _ = openBrace :: ((timeMember .min _ _).text ++ (Member.others _ ++ [closeBrace]))
    simp only [rttText, rttAppends, jsonStartObject, jsonKvStrContinue, jsonKvStr, jsonContinue,
      jsonEndObject, List.map_cons, List.map_nil, List.flatten_cons, List.flatten_nil, Append.text,
      List.append_nil, Member.others_cons, Member.others_nil, timeMember_text, List.cons_append,
      List.nil_append]
    rfl
  rw [hobject]
  rfl

theorem pipesize_toInt (lower : -2147483648 ≤ rts.pipesize) (upper : rts.pipesize ≤ intMax) :
    (Int32.ofInt rts.pipesize).toInt = rts.pipesize := by
  apply Int32.toInt_ofInt_of_le lower
  simp only [intMax] at upper
  omega

theorem statistics_text (startTime : Timespec) (plain : rts.hostname.all isPlain = true) :
    ((statisticsMembers (jsonStatistics rts (tssub rts.curTime startTime))).map
      Append.text).flatten = (hostMember rts plain).text ++
        (Member.others (numberMembers startTime rts) ++ [comma, space]) := by
  simp only [statisticsMembers, jsonKvStrContinue, jsonKvIntContinue, jsonKvStr, jsonKvInt,
    jsonContinue, List.map_cons, List.map_nil, List.flatten_cons, List.flatten_nil, Append.text,
    List.append_nil, jsonStatistics, cString_bytes plain, numberMembers, Member.others_cons,
    Member.others_nil, hostMember_text, intMember_text, List.cons_append, List.nil_append]

theorem pipe_text (lower : -2147483648 ≤ rts.pipesize) (upper : rts.pipesize ≤ intMax) :
    ((pipeAppends (Int32.ofInt rts.pipesize)).map Append.text).flatten =
      if rts.pipesize > 1 then Member.others [pipeMember rts] ++ [comma, space] else [] := by
  rw [pipeAppends, pipesize_toInt lower upper]
  split
  · simp only [jsonContinue, jsonKvIntContinue, jsonKvInt, List.map_cons, List.map_nil,
      List.flatten_cons, List.flatten_nil, Append.text, List.append_nil, Member.others_cons,
      Member.others_nil, pipeMember, intMember_text, List.cons_append, List.nil_append]
  · rfl

/-- The gap brings its own comma only where there is none from `pipe`. -/
theorem gap_text (rts : PingRts) (startTime : Timespec) (leading : Bool) :
    [comma, space] ++ ((floodAppends leading
      (ipgTime (interPacketGap rts (tssub rts.curTime startTime)))
      (ewmaTime rts.rtt)).map Append.text).flatten =
        (if leading then [comma, space] else []) ++ Member.others (gapMembers startTime rts) := by
  have hothers : Member.others (gapMembers startTime rts) = comma :: space ::
      (keyed .ipg (quoted (ipgTime (interPacketGap rts (tssub rts.curTime startTime))).bytes) ++
        comma :: space :: keyed .ewma (quoted (ewmaTime rts.rtt).bytes)) := by
    rw [gapMembers, Member.others_eq, Member.others_eq, Member.others_nil, List.append_nil]
    rfl
  rw [hothers]
  cases leading <;>
    simp only [floodAppends, jsonContinue, jsonKvStrContinue, jsonKvStr, List.map_cons,
      List.map_nil, List.flatten_cons, List.flatten_nil, Append.text, List.append_nil,
      List.cons_append, List.nil_append, if_true, Bool.false_eq_true, if_false]

theorem finish_text (plain : rts.hostname.all isPlain = true)
    (lower : -2147483648 ≤ rts.pipesize) (upper : rts.pipesize ≤ intMax) (startTime : Timespec) :
    ((finishAppends startTime rts).map Append.text).flatten =
      openBrace :: ((hostMember rts plain).text ++
        (Member.others (finishMembers startTime rts) ++ trailing rts)) := by
  have hpipe := pipe_text lower upper
  have hgap := gap_text rts startTime (decide (rts.pipesize < 2))
  rw [finishAppends, statisticsAppends, gapAppends, finishMembers, trailing]
  simp only [List.map_append, List.map_cons, List.flatten_append, List.flatten_cons,
    statistics_text startTime plain, Append.text]
  change _ ++ ((keyed .rtt (rttText (rttTexts rts))) ++
    ((pipeAppends (Int32.ofInt rts.pipesize)).map Append.text).flatten) ++ _ = _
  rw [hpipe, ← rttMember_text]
  by_cases hmany : rts.pipesize > 1
  · have hleading : ¬rts.pipesize < 2 := by omega
    simp only [hleading, decide_false, Bool.false_eq_true, if_false, List.nil_append] at hgap
    cases hasGap rts with
    | false => simp [hmany, Member.others_append, Member.others_eq, Member.others_nil]
    | true => simp [hmany, Member.others_append, Member.others_eq, Member.others_nil, ← hgap,
        hleading]
  · have hleading : rts.pipesize < 2 := by omega
    simp only [hleading, decide_true, if_true] at hgap
    have hgap' := List.append_cancel_left hgap
    cases hasGap rts with
    | false => simp [hmany, Member.others_append, Member.others_eq, Member.others_nil]
    | true => simp [hmany, Member.others_append, Member.others_eq, ← hgap', hleading]

end Members

/-! ## The appends -/

section Appends

variable {rts : PingRts} {startTime : Timespec} {appends others : List Append}

/-- Texts that are not empty, and not too long by themselves. -/
def Small (appends : List Append) : Prop :=
  ∀ a ∈ appends, a.text ≠ [] ∧ a.text.length < PING_JSON_MAX

theorem Small.append (h : Small appends) (h' : Small others) : Small (appends ++ others) := by
  intro a ha
  rcases List.mem_append.mp ha with ha | ha
  · exact h a ha
  · exact h' a ha

theorem Small.nil : Small [] := fun _ ha => absurd ha List.not_mem_nil

theorem Small.singleton {x : List UInt8} (nonempty : x ≠ []) (short : x.length < PING_JSON_MAX) :
    Small [.atEnd x] := by
  intro a ha
  rw [List.mem_singleton.mp ha]
  exact ⟨nonempty, short⟩

theorem small_keyed (key : JsonKey) {value : List UInt8}
    (short : value.length + 15 < PING_JSON_MAX) :
    Small [.atEnd (keyed key value)] := by
  have hkey := JsonKey.length_text_le key
  have hlength : (keyed key value).length < PING_JSON_MAX := by
    rw [length_keyed]
    omega
  exact Small.singleton (List.cons_ne_nil _ _) hlength

theorem small_continue : Small jsonContinue :=
  Small.singleton (List.cons_ne_nil _ _) (by decide)

theorem length_decimal_int32 (x : Int32) : (decimal x.toInt).length ≤ 11 := by
  have hbound : x.toInt.natAbs < 10 ^ 10 := by
    have hlower := x.le_toInt
    have hupper := x.toInt_lt
    omega
  exact length_decimal_le hbound

theorem small_int (key : JsonKey) (x : Int32) : Small (jsonKvInt key x) := by
  apply small_keyed
  exact Nat.lt_of_le_of_lt (Nat.add_le_add_right (length_decimal_int32 x) 15) (by decide)

theorem small_intContinue (key : JsonKey) (x : Int32) : Small (jsonKvIntContinue key x) :=
  (small_int key x).append small_continue

theorem small_time (key : JsonKey) (t : TimeText) : Small (jsonKvStr key t.bytes) := by
  apply small_keyed
  rw [length_quoted]
  have hfits := t.fits
  exact Nat.lt_of_le_of_lt (by omega : _ ≤ 46) (by decide)

theorem small_statistics (plain : rts.hostname.all isPlain = true)
    (short : rts.hostname.length + 10 < PING_JSON_MAX) (tv : Timespec) :
    Small (statisticsMembers (jsonStatistics rts tv)) := by
  have hhost : Small (jsonKvStr .host (jsonStatistics rts tv).hostname.bytes) := by
    change Small [.atEnd (keyed .host (quoted (cString rts.hostname).bytes))]
    have hkey : JsonKey.host.text.length = 4 := ascii_length _
    have hlength : (keyed .host (quoted rts.hostname)).length < PING_JSON_MAX := by
      rw [length_keyed, length_quoted, hkey]
      omega
    rw [cString_bytes plain]
    exact Small.singleton (List.cons_ne_nil _ _) hlength
  exact ((((((((hhost.append small_continue).append (small_intContinue _ _)).append
    (small_intContinue _ _)).append (small_intContinue _ _)).append (small_intContinue _ _)).append
    (small_intContinue _ _)).append (small_intContinue _ _)).append (small_intContinue _ _))

theorem small_finish (plain : rts.hostname.all isPlain = true)
    (short : rts.hostname.length + 10 < PING_JSON_MAX) (startTime : Timespec) :
    Small (finishAppends startTime rts) := by
  have hopen : Small [.atEnd [openBrace]] :=
    Small.singleton (List.cons_ne_nil _ _) (by decide)
  have hrtt : Small [.atEnd (keyed .rtt (rttText (rttTexts rts)))] := by
    apply small_keyed
    have hlength := length_rttText_le (rttTexts rts)
    exact Nat.lt_of_le_of_lt (Nat.add_le_add_right hlength 15) (by decide)
  have hpipe : ∀ pipesize, Small (pipeAppends pipesize) := by
    intro pipesize
    rw [pipeAppends]
    split
    · exact small_continue.append (small_intContinue _ _)
    · exact Small.nil
  have hgap : Small (gapAppends startTime rts) := by
    rw [gapAppends]
    split
    · apply Small.append (Small.append ?_ ((small_time _ _).append small_continue)) (small_time _ _)
      split
      · exact small_continue
      · exact Small.nil
    · exact Small.nil
  exact ((hopen.append (small_statistics plain short _)).append (hrtt.append (hpipe _))).append hgap

theorem length_int_le (key : JsonKey) (x : Int32) :
    ((jsonKvIntContinue key x).map Append.text).flatten.length ≤ 28 := by
  have hkey := JsonKey.length_text_le key
  have hlength := length_decimal_int32 x
  change (keyed key (decimal x.toInt) ++ ([comma, space] ++ [])).length ≤ 28
  rw [List.length_append, length_keyed]
  change _ + 2 ≤ 28
  omega

theorem length_time_le (key : JsonKey) (t : TimeText) :
    ((jsonKvStr key t.bytes).map Append.text).flatten.length ≤ 46 := by
  have hkey := JsonKey.length_text_le key
  have hfits := t.fits
  change (keyed key (quoted t.bytes) ++ []).length ≤ 46
  rw [List.append_nil, length_keyed, length_quoted]
  omega

theorem length_gap_le (startTime : Timespec) (rts : PingRts) :
    ((gapAppends startTime rts).map Append.text).flatten.length ≤ 96 := by
  have hcontinue : (jsonContinue.map Append.text).flatten.length = 2 := rfl
  rw [gapAppends]
  split
  · have hipg := length_time_le .ipg (ipgTime (interPacketGap rts (tssub rts.curTime startTime)))
    have hewma := length_time_le .ewma (ewmaTime rts.rtt)
    simp only [floodAppends, jsonKvStrContinue, List.map_append, List.flatten_append,
      List.length_append, hcontinue]
    split
    · rw [hcontinue]
      omega
    · change 0 + _ + _ ≤ 96
      omega
  · exact Nat.zero_le _

/-- All texts but the host name are short. -/
theorem finishLength_le (plain : rts.hostname.all isPlain = true) (startTime : Timespec) :
    finishLength startTime rts ≤ rts.hostname.length + 600 := by
  have hcontinue : (jsonContinue.map Append.text).flatten.length = 2 := rfl
  have hkey : JsonKey.host.text.length = 4 := ascii_length _
  have hhost : ((jsonKvStr .host (jsonStatistics rts (tssub rts.curTime startTime)).hostname.bytes
      ).map Append.text).flatten.length = rts.hostname.length + 10 := by
    change (keyed .host (quoted (cString rts.hostname).bytes) ++ []).length = _
    rw [cString_bytes plain, List.append_nil, length_keyed, length_quoted, hkey]
    omega
  have hrtt : (keyed .rtt (rttText (rttTexts rts))).length ≤ 215 := by
    have hlength := length_rttText_le (rttTexts rts)
    have hkey' := JsonKey.length_text_le .rtt
    rw [length_keyed]
    omega
  have hpipe : ∀ pipesize, ((pipeAppends pipesize).map Append.text).flatten.length ≤ 30 := by
    intro pipesize
    rw [pipeAppends]
    split
    · have hint := length_int_le .pipe pipesize
      rw [List.map_append, List.flatten_append, List.length_append, hcontinue]
      omega
    · exact Nat.zero_le _
  have hgap := length_gap_le startTime rts
  have hpipe' := hpipe (jsonStatistics rts (tssub rts.curTime startTime)).pipesize
  have hint := fun key x => length_int_le key x
  simp only [finishLength, finishAppends, statisticsAppends, statisticsMembers, jsonKvStrContinue,
    List.map_append, List.map_cons, List.flatten_append, List.flatten_cons, List.length_append,
    hcontinue, hhost, Append.text, List.length_singleton]
  have h1 := hint .transmitted (jsonStatistics rts (tssub rts.curTime startTime)).transmitted
  have h2 := hint .received (jsonStatistics rts (tssub rts.curTime startTime)).received
  have h3 := hint .duplicates (jsonStatistics rts (tssub rts.curTime startTime)).duplicates
  have h4 := hint .corrupted (jsonStatistics rts (tssub rts.curTime startTime)).corrupted
  have h5 := hint .errors (jsonStatistics rts (tssub rts.curTime startTime)).errors
  have h6 := hint .loss (jsonStatistics rts (tssub rts.curTime startTime)).loss
  have h7 := hint .time (jsonStatistics rts (tssub rts.curTime startTime)).time
  omega

theorem atEnd_gap (startTime : Timespec) (rts : PingRts) : AtEnd (gapAppends startTime rts) := by
  rw [gapAppends]
  split
  · apply AtEnd.append (AtEnd.append ?_ ((atEnd_str _ (ipgTime _).toCString).append
      atEnd_continue)) (atEnd_str _ (ewmaTime _).toCString)
    split
    · exact atEnd_continue
    · exact fun _ ha => absurd ha List.not_mem_nil
  · exact fun _ ha => absurd ha List.not_mem_nil

theorem atEnd_finish (startTime : Timespec) (rts : PingRts) :
    AtEnd (finishAppends startTime rts) := by
  obtain ⟨hfirst, hsecond⟩ := atEnd_ends (jsonStatistics rts (tssub rts.curTime startTime))
    (rttTexts rts)
  exact (hfirst.append hsecond).append (atEnd_gap startTime rts)

/-- Behind the opening brace the buffer is begun. -/
theorem started_of_small {b : PingJsonBuffer} (small : Small (.atEnd [openBrace] :: appends))
    (atEnd : AtEnd (.atEnd [openBrace] :: appends))
    (h : PingJsonBuffer.appendAll {} (.atEnd [openBrace] :: appends) = .ok b) :
    b.started = true := by
  obtain ⟨b', hb', hsound⟩ := sound_empty.append (by decide : 0 ∉ [openBrace]) (by decide)
  rw [PingJsonBuffer.appendAll, List.foldlM_cons, hb'] at h
  exact hsound.started_appendAll (List.cons_ne_nil _ _) atEnd.cons.2
    (fun a ha => (small a (List.mem_cons_of_mem _ ha)).1) h

theorem pingPrintStatistics_eq {b : PingJsonBuffer} (h : Sound b []) (times : hasTimes rts = true)
    (stack : CBuffer PING_JSON_MAX) (startTime : Timespec) :
    pingPrintStatistics stack rts (tssub rts.curTime startTime) b =
      b.appendAll (statisticsAppends startTime rts) := by
  rw [pingPrintStatistics, if_pos times, h.constructJsonStatistics]
  rfl

theorem pingPrintGap_eq (times : hasTimes rts = true) (startTime : Timespec) {b : PingJsonBuffer}
    (started : b.started = true) :
    pingPrintGap rts (tssub rts.curTime startTime) b = b.appendAll (gapAppends startTime rts) := by
  rw [pingPrintGap, gapAppends]
  split
  · rw [constructJsonStatisticsFlood, if_pos ⟨rfl, started⟩, times, Bool.true_and]
  · rfl

/-- All three functions together are one row of appends, and the line is what it leaves. -/
theorem pingPrintFinish_eq (times : hasTimes rts = true) (plain : rts.hostname.all isPlain = true)
    (short : rts.hostname.length + 10 < PING_JSON_MAX) (stack : CBuffer PING_JSON_MAX)
    (startTime : Timespec) :
    pingPrintFinish stack startTime rts {} =
      (PingJsonBuffer.appendAll {} (finishAppends startTime rts)).map printJsonAndReset := by
  have hsmall := small_finish plain short startTime
  have hatEnd := atEnd_finish startTime rts
  rw [pingPrintFinish, pingPrintStatistics_eq sound_empty times, finishAppends, appendAll_append]
  cases hfirst : PingJsonBuffer.appendAll {} (statisticsAppends startTime rts) with
  | error stop => rfl
  | ok b =>
      have hstarted : b.started = true := started_of_small
        (fun a ha => hsmall a (List.mem_append_left _ ha))
        (fun a ha => hatEnd a (List.mem_append_left _ ha)) hfirst
      change (pingPrintGap rts (tssub rts.curTime startTime) b >>= fun b =>
        .ok (printJsonStatistics true b)) = (b.appendAll (gapAppends startTime rts)).map _
      rw [pingPrintGap_eq times startTime hstarted]
      cases hsecond : b.appendAll (gapAppends startTime rts) with
      | error stop => rfl
      | ok b' =>
          have hstarted' : b'.started = true := by
            apply started_of_small hsmall hatEnd
            change PingJsonBuffer.appendAll {} (statisticsAppends startTime rts ++ _) = _
            rw [appendAll_append, hfirst]
            exact hsecond
          change Except.ok (printJsonStatistics true b') = .ok (printJsonAndReset b')
          rw [printJsonStatistics, if_pos ⟨rfl, hstarted'⟩]

/-- A host name that is too long by itself ends the program. -/
theorem pingPrintFinish_long (times : hasTimes rts = true)
    (plain : rts.hostname.all isPlain = true) (long : PING_JSON_MAX ≤ rts.hostname.length + 10)
    (stack : CBuffer PING_JSON_MAX) (startTime : Timespec) :
    pingPrintFinish stack startTime rts {} = .error .overflow := by
  obtain ⟨b, hb, hsound⟩ := sound_empty.append (by decide : 0 ∉ [openBrace]) (by decide)
  have hkey : JsonKey.host.text.length = 4 := ascii_length _
  have hlength : (keyed .host (quoted rts.hostname)).length = rts.hostname.length + 10 := by
    rw [length_keyed, length_quoted, hkey]
    omega
  have hstop : b.append (.atEnd (keyed .host (quoted rts.hostname))) = .error .overflow := by
    rcases hsound.append_long (x := keyed .host (quoted rts.hostname)) (by omega) with
      ⟨-, hstop⟩ | ⟨hshort, -⟩
    · exact hstop
    · omega
  have hfirst : PingJsonBuffer.appendAll {} (statisticsAppends startTime rts) =
      .error .overflow := by
    obtain ⟨others, hothers⟩ : ∃ others, statisticsAppends startTime rts =
        .atEnd [openBrace] :: .atEnd (keyed .host (quoted (cString rts.hostname).bytes)) ::
          others := ⟨_, rfl⟩
    rw [hothers, cString_bytes plain, PingJsonBuffer.appendAll, List.foldlM_cons, hb]
    change (List.foldlM PingJsonBuffer.append b (_ :: others)) = _
    rw [List.foldlM_cons, hstop]
    rfl
  rw [pingPrintFinish, pingPrintStatistics_eq sound_empty times, hfirst]
  rfl

end Appends

/-! ## What is read -/

section Read

variable {rts : PingRts} {startTime : Timespec} {m : Member} {ms : List Member}

/-- The keys of all members. -/
def finishKeys (rts : PingRts) : List JsonKey :=
  [.host, .transmitted, .received, .duplicates, .corrupted, .errors, .loss, .time, .rtt] ++
    (if rts.pipesize > 1 then [.pipe] else []) ++ if hasGap rts then [.ipg, .ewma] else []

theorem keys_finish (plain : rts.hostname.all isPlain = true) (startTime : Timespec) :
    (hostMember rts plain :: finishMembers startTime rts).map Member.key =
      (finishKeys rts).map JsonKey.text := by
  rw [finishMembers, finishKeys]
  split <;> split <;> rfl

theorem nodup_keys (rts : PingRts) : ((finishKeys rts).map JsonKey.text).Nodup := by
  have hall : ([.host, .transmitted, .received, .duplicates, .corrupted, .errors, .loss, .time,
      .rtt, .pipe, .ipg, .ewma].map JsonKey.text).Nodup := by
    simp only [List.map_cons, List.map_nil, JsonKey.text]
    decide
  apply List.Nodup.sublist _ hall
  apply List.Sublist.map
  rw [finishKeys]
  split <;> split <;> decide

/-- A number is read back when it is a member. -/
theorem field_int (nodup : (ms.map Member.key).Nodup) {key : JsonKey} {x : Int}
    (mem : Member.ofInt key.text x (JsonKey.plain key) ∈ ms) :
    ((Json.Value.object (ms.map Member.pair)).field key.text).bind Json.Value.int = some x := by
  have hfield := Member.field_of_mem nodup mem
  change (Json.Value.object (ms.map Member.pair)).field key.text = _ at hfield
  rw [hfield]
  change some (intOfDecimal (decimal x)) = _
  rw [intOfDecimal_decimal]

theorem toInt_ofNat_iff (n : Nat) : (Int32.ofInt n).toInt = n ↔ (n : Int) ≤ intMax := by
  have hlt := (Int32.ofInt n).toInt_lt
  simp only [intMax]
  constructor
  · intro h
    omega
  · intro h
    exact Int32.toInt_ofInt_of_le (by omega) (by omega)

theorem counted_iff : Counted rts ↔ ((rts.ntransmitted : Int) ≤ intMax ∧
    (rts.nreceived : Int) ≤ intMax ∧ (rts.nrepeats : Int) ≤ intMax ∧
    (rts.nchecksum : Int) ≤ intMax ∧ (rts.nerrors : Int) ≤ intMax) := by
  simp only [Counted, List.forall_mem_cons, List.not_mem_nil, false_imp_iff, implies_true,
    and_true]

/-- In an object with all members, the numbers are the ones of the run as long as they are in
the range of `int`. -/
theorem decoded_iff (plain : rts.hostname.all isPlain = true)
    (lower : -2147483648 ≤ rts.pipesize) (upper : rts.pipesize ≤ intMax) :
    Decoded rts (.object ((hostMember rts plain :: finishMembers startTime rts).map
      Member.pair)) ↔ Counted rts := by
  have hnodup : ((hostMember rts plain :: finishMembers startTime rts).map Member.key).Nodup := by
    rw [keys_finish]
    exact nodup_keys rts
  have hmem : ∀ (i : Nat) (x : Member), (numberMembers startTime rts)[i]? = some x →
      x ∈ hostMember rts plain :: finishMembers startTime rts := by
    intro i x hx
    apply List.mem_cons_of_mem
    rw [finishMembers, List.append_assoc, List.append_assoc]
    exact List.mem_append_left _ (List.mem_of_getElem? hx)
  have hcount : ∀ (key : JsonKey) (n i : Nat),
      (numberMembers startTime rts)[i]? = some (intMember key (Int32.ofInt n)) →
      (((Json.Value.object ((hostMember rts plain :: finishMembers startTime rts).map
        Member.pair)).field key.text).bind Json.Value.int = some (n : Int) ↔
          (n : Int) ≤ intMax) := by
    intro key n i hi
    rw [field_int hnodup (hmem i _ hi), Option.some_inj, toInt_ofNat_iff]
  rw [counted_iff, ← hcount .transmitted _ 0 rfl, ← hcount .received _ 1 rfl,
    ← hcount .duplicates _ 2 rfl, ← hcount .corrupted _ 3 rfl, ← hcount .errors _ 4 rfl]
  constructor
  · intro h
    exact ⟨h.transmitted, h.received, h.duplicates, h.corrupted, h.errors⟩
  · intro ⟨htransmitted, hreceived, hduplicates, hcorrupted, herrors⟩
    refine ⟨htransmitted, hreceived, hduplicates, hcorrupted, herrors, ?_⟩
    intro hmany
    have hpipe : pipeMember rts ∈ hostMember rts plain :: finishMembers startTime rts := by
      apply List.mem_cons_of_mem
      rw [finishMembers, if_pos hmany]
      apply List.mem_append_left
      apply List.mem_append_right
      exact List.mem_cons_self
    have hfield := field_int hnodup hpipe
    rw [pipesize_toInt lower upper] at hfield
    exact hfield

theorem newline_of_plain {s : List UInt8} (plain : s.all isPlain = true) : 0x0a ∉ s :=
  fun hmem => absurd (List.all_eq_true.mp plain _ hmem) (by decide)

theorem newline_int (key : JsonKey) (x : Int) : 0x0a ∉ (Member.ofInt key.text x
    (JsonKey.plain key)).written :=
  newline_of_plain (plain_decimal x)

theorem newline_string {s : List UInt8} (plain : s.all isPlain = true) :
    0x0a ∉ quote :: (s ++ [quote]) := by
  simp only [List.mem_cons, List.mem_append, List.not_mem_nil, or_false, not_or]
  exact ⟨by decide, newline_of_plain plain, by decide⟩

theorem newline_rtt (rts : PingRts) : 0x0a ∉ (rttMember rts).written := by
  apply Member.newline_objectText
  simp only [List.forall_mem_cons, List.not_mem_nil, false_imp_iff, implies_true, and_true]
  exact ⟨newline_string (plain_longTime _), newline_string (plain_averageTime _),
    newline_string (plain_longTime _), newline_string (plain_longTime _)⟩

theorem newline_finish (plain : rts.hostname.all isPlain = true) :
    ∀ x ∈ hostMember rts plain :: finishMembers startTime rts, 0x0a ∉ x.written := by
  have hnumbers : ∀ x ∈ numberMembers startTime rts, 0x0a ∉ x.written := by
    simp only [numberMembers, List.forall_mem_cons, List.not_mem_nil, false_imp_iff,
      implies_true, and_true]
    exact ⟨newline_int _ _, newline_int _ _, newline_int _ _, newline_int _ _, newline_int _ _,
      newline_int _ _, newline_int _ _⟩
  have hgap : ∀ x ∈ gapMembers startTime rts, 0x0a ∉ x.written := by
    simp only [gapMembers, List.forall_mem_cons, List.not_mem_nil, false_imp_iff,
      implies_true, and_true]
    exact ⟨newline_string (plain_longTime _), newline_string (plain_ewmaTime _)⟩
  rw [finishMembers, List.forall_mem_cons]
  refine ⟨newline_string plain, ?_⟩
  intro x hx
  simp only [List.mem_append, List.mem_singleton, List.mem_ite_nil_right] at hx
  rcases hx with ((hx | rfl) | ⟨-, rfl⟩) | ⟨-, hx⟩
  · exact hnumbers x hx
  · exact newline_rtt rts
  · exact newline_int _ _
  · exact hgap x hx

/-- The object with all members is the line that is asked for, as long as the counters are in
the range of `int`. -/
theorem objectLine_iff (plain : rts.hostname.all isPlain = true)
    (lower : -2147483648 ≤ rts.pipesize) (upper : rts.pipesize ≤ intMax) (startTime : Timespec) :
    ObjectLine rts (Member.objectText (hostMember rts plain) (finishMembers startTime rts) ++
      [0x0a]) ↔ Counted rts := by
  have hparse := Member.parse_objectText (hostMember rts plain) (finishMembers startTime rts)
  constructor
  · rintro ⟨body, members, -, -, hread, hdecoded⟩
    rw [hparse] at hread
    cases hread
    exact (decoded_iff plain lower upper).mp hdecoded
  · intro hcounted
    exact ⟨_, _, rfl, Member.newline_objectText (newline_finish plain), hparse,
      (decoded_iff plain lower upper).mpr hcounted⟩

theorem not_objectLine {line : List UInt8} (h : Json.parse line = none) : ¬ObjectLine rts line := by
  intro hline
  obtain ⟨body, members, -, -, hread, -⟩ := hline
  rw [h] at hread
  cases hread

end Read

/-! ## Too little room -/

section Over

variable {rts : PingRts} {startTime : Timespec}

/-- A text that is cut off behind its first part and a byte. -/
theorem take_between {front back : List UInt8} {c : UInt8} {i : Nat} (behind : front.length < i)
    (cut : i < (front ++ c :: back).length) :
    ∃ q, (front ++ c :: back).take i = front ++ c :: q ∧ q <+: back ∧ q ≠ back := by
  rw [List.length_append, List.length_cons] at cut
  obtain ⟨k, hk⟩ : ∃ k, i - front.length = k + 1 := Nat.exists_eq_add_of_le' (by omega)
  refine ⟨back.take k, ?_, List.take_prefix k back, ?_⟩
  · rw [List.take_append, List.take_of_length_le (Nat.le_of_lt behind), hk, List.take_succ_cons]
  · intro hall
    have hlength := congrArg List.length hall
    rw [List.length_take] at hlength
    omega

theorem keyed_append (key : JsonKey) (value tail : List UInt8) :
    keyed key (value ++ tail) = keyed key value ++ tail := by
  rw [keyed, keyed, List.cons_append, List.append_assoc]
  rfl

/-- Where there is no comma too many, the last append is the last member, and it does not
survive a cut. -/
theorem finish_last (lower : -2147483648 ≤ rts.pipesize) (upper : rts.pipesize ≤ intMax)
    (complete : ¬(rts.pipesize > 1 ∧ hasGap rts = false)) (startTime : Timespec) :
    ∃ front ms last, finishAppends startTime rts = front ++ [.atEnd last.text] ∧
      finishMembers startTime rts = ms ++ [last] ∧ Member.CutSafe last.written := by
  cases hgap : hasGap rts with
  | true =>
      have happends : ∃ front, finishAppends startTime rts =
          front ++ jsonKvStr .ewma (ewmaTime rts.rtt).bytes := by
        rw [finishAppends, gapAppends, if_pos hgap, floodAppends, ← List.append_assoc]
        exact ⟨_, rfl⟩
      have hmembers : ∃ ms, finishMembers startTime rts =
          ms ++ [timeMember .ewma (ewmaTime rts.rtt) (plain_ewmaTime _)] := by
        rw [finishMembers, if_pos hgap, gapMembers]
        exact ⟨_, List.append_cons ..⟩
      obtain ⟨front, hfront⟩ := happends
      obtain ⟨ms, hms⟩ := hmembers
      exact ⟨front, ms, timeMember .ewma (ewmaTime rts.rtt) (plain_ewmaTime _), hfront, hms,
        Member.cutSafe_string (plain_ewmaTime _)⟩
  | false =>
      have hone : ¬rts.pipesize > 1 := fun hmany => complete ⟨hmany, hgap⟩
      have hpipe : pipeAppends (Int32.ofInt rts.pipesize) = [] := by
        rw [pipeAppends, pipesize_toInt lower upper, if_neg hone]
      have hnone : ¬hasGap rts = true := by
        rw [hgap]
        exact Bool.false_ne_true
      refine ⟨.atEnd [openBrace] ::
          statisticsMembers (jsonStatistics rts (tssub rts.curTime startTime)),
        numberMembers startTime rts, rttMember rts, ?_, ?_, ?_⟩
      · rw [finishAppends, gapAppends, if_neg hnone, List.append_nil, statisticsAppends,
          rttMember_text]
        change _ ++ (_ :: pipeAppends (Int32.ofInt rts.pipesize)) = _
        rw [hpipe]
      · rw [finishMembers, if_neg hone, if_neg hnone, List.append_nil, List.append_nil]
      · apply Member.cutSafe_object
        simp only [List.forall_mem_cons, List.not_mem_nil, false_imp_iff, implies_true, and_true]
        exact ⟨Member.cutSafe_string (plain_longTime _),
          Member.cutSafe_string (plain_averageTime _),
          Member.cutSafe_string (plain_longTime _), Member.cutSafe_string (plain_longTime _)⟩

theorem finishSound_ok {b : PingJsonBuffer} :
    FinishSound rts (.ok (printJsonAndReset b)) ↔
      ObjectLine rts (b.object.text ++ Member.ending) := by
  rw [FinishSound, printJsonAndReset]
  apply or_iff_right
  exact List.append_ne_nil_of_right_ne_nil _ (List.cons_ne_nil _ _)

theorem finishSound_iff (times : hasTimes rts = true) (plain : rts.hostname.all isPlain = true)
    (short : rts.hostname.length + 10 < PING_JSON_MAX) (stack : CBuffer PING_JSON_MAX) :
    FinishSound rts (pingPrintFinish stack startTime rts {}) ↔
      ∃ b, PingJsonBuffer.appendAll {} (finishAppends startTime rts) = .ok b ∧
        ObjectLine rts (b.object.text ++ Member.ending) := by
  rw [pingPrintFinish_eq times plain short]
  cases hrun : PingJsonBuffer.appendAll {} (finishAppends startTime rts) with
  | error stop =>
      have hstop := stop_of_appendAll (atEnd_finish startTime rts)
        (fun a ha => (small_finish plain short startTime a ha).2) hrun
      constructor
      · intro h
        exact absurd hstop h
      · rintro ⟨b, hb, -⟩
        cases hb
  | ok b =>
      change FinishSound rts (.ok (printJsonAndReset b)) ↔ _
      rw [finishSound_ok]
      constructor
      · intro h
        exact ⟨b, rfl, h⟩
      · rintro ⟨b', hb', h⟩
        cases hb'
        exact h

/-- With complete members, a text that does not fit is not an object. -/
theorem not_objectLine_over (plain : rts.hostname.all isPlain = true)
    (short : rts.hostname.length + 10 < PING_JSON_MAX) (lower : -2147483648 ≤ rts.pipesize)
    (upper : rts.pipesize ≤ intMax) (complete : ¬(rts.pipesize > 1 ∧ hasGap rts = false))
    (exceeds : PING_JSON_MAX ≤ finishLength startTime rts) {b : PingJsonBuffer}
    (run : PingJsonBuffer.appendAll {} (finishAppends startTime rts) = .ok b) :
    ¬ObjectLine rts (b.object.text ++ Member.ending) := by
  obtain ⟨front, append, hsplit, hle, hholds⟩ := sound_empty.appendAll_over
    (atEnd_finish startTime rts) (fun a ha => (small_finish plain short startTime a ha).1)
    (by rw [List.length_nil, Nat.zero_add]; exact exceeds) run
  obtain ⟨front', ms, last, happends, hmembers, hsafe⟩ :=
    finish_last lower upper complete startTime
  obtain ⟨rfl, -⟩ := List.append_inj' (hsplit.symm.trans happends) rfl
  have htrailing : trailing rts = [] := if_neg complete
  have htext := finish_text plain lower upper startTime
  rw [htrailing, List.append_nil, hmembers, Member.others_append, Member.others_eq,
    Member.others_nil, List.append_nil, ← List.append_assoc, ← List.cons_append] at htext
  have hbehind : (openBrace :: ((hostMember rts plain).text ++ Member.others ms)).length <
      PING_JSON_MAX - 1 := by
    have hlength := congrArg List.length htext
    rw [happends, List.map_append, List.flatten_append, List.length_append, List.length_append]
      at hlength
    change _ + (last.text ++ []).length = _ at hlength
    rw [List.append_nil, List.length_cons (a := comma), List.length_cons (a := space)] at hlength
    rw [List.length_nil, Nat.zero_add] at hle
    have hmax : PING_JSON_MAX = 4000 := rfl
    omega
  rw [finishLength, htext] at exceeds
  obtain ⟨q, htake, hq, hproper⟩ := take_between hbehind (Nat.lt_of_succ_le exceeds)
  apply not_objectLine
  rw [hholds.text, List.nil_append, htext, htake, List.cons_append, List.cons_append,
    List.append_assoc, List.append_assoc]
  exact Member.parse_cut_none (hostMember rts plain) ms hsafe hq hproper

/-! ## A comma too many -/

/-- With `pipe` as the last member, the last append is the comma behind it. -/
theorem finish_excess (plain : rts.hostname.all isPlain = true)
    (lower : -2147483648 ≤ rts.pipesize) (upper : rts.pipesize ≤ intMax)
    (excess : rts.pipesize > 1 ∧ hasGap rts = false) (startTime : Timespec) :
    ∃ front, finishAppends startTime rts = front ++ [.atEnd [comma, space]] ∧
      (front.map Append.text).flatten = openBrace :: ((hostMember rts plain).text ++
        Member.others (finishMembers startTime rts)) := by
  have hnone : ¬hasGap rts = true := by
    rw [excess.2]
    exact Bool.false_ne_true
  have happends : ∃ front, finishAppends startTime rts = front ++ [.atEnd [comma, space]] := by
    rw [finishAppends, gapAppends, if_neg hnone, List.append_nil, statisticsAppends]
    change ∃ front, _ ++ (_ :: pipeAppends (Int32.ofInt rts.pipesize)) = _
    rw [pipeAppends, pipesize_toInt lower upper, if_pos excess.1, jsonKvIntContinue,
      ← List.append_assoc, ← List.cons_append, ← List.append_assoc]
    exact ⟨_, rfl⟩
  obtain ⟨front, hfront⟩ := happends
  refine ⟨front, hfront, ?_⟩
  have htext := finish_text plain lower upper startTime
  have htrailing : trailing rts = [comma, space] := if_pos excess
  rw [hfront, List.map_append, List.flatten_append, htrailing, ← List.append_assoc,
    ← List.cons_append] at htext
  exact List.append_cancel_right htext

/-- The comma is not followed by a member. -/
theorem parse_excess_none (m : Member) (ms : List Member) {q : List UInt8} (cut : q <+: [space]) :
    Json.parse (openBrace :: (m.text ++ (Member.others ms ++ comma :: (q ++ Member.ending)))) =
      none := by
  have hsafe : Member.CutSafe
      (Member.ofString JsonKey.pipe.text [] (JsonKey.plain .pipe) rfl).written :=
    Member.cutSafe_string rfl
  apply Member.parse_cut_none m ms hsafe
  · exact cut.trans (List.prefix_append [space] _)
  · rintro rfl
    exact absurd cut.length_le (by decide)

/-- The members in front of `pipe`. -/
def frontMembers (startTime : Timespec) (rts : PingRts) : List Member :=
  numberMembers startTime rts ++ [rttMember rts]

theorem members_excess (excess : rts.pipesize > 1 ∧ hasGap rts = false) (startTime : Timespec) :
    finishMembers startTime rts = frontMembers startTime rts ++ [pipeMember rts] := by
  have hnone : ¬hasGap rts = true := by
    rw [excess.2]
    exact Bool.false_ne_true
  rw [finishMembers, if_pos excess.1, if_neg hnone, List.append_nil, frontMembers]

/-- An object that ends with the value of `pipe`. -/
def pipeText (startTime : Timespec) (plain : rts.hostname.all isPlain = true)
    (value : List UInt8) : List UInt8 :=
  openBrace :: ((hostMember rts plain).text ++
    (Member.others (frontMembers startTime rts) ++ comma :: space :: keyed .pipe value))

theorem pipeText_append (plain : rts.hostname.all isPlain = true) (value tail : List UInt8) :
    pipeText startTime plain (value ++ tail) = pipeText startTime plain value ++ tail := by
  simp only [pipeText, keyed_append, List.cons_append, List.append_assoc]

theorem text_excess (plain : rts.hostname.all isPlain = true)
    (lower : -2147483648 ≤ rts.pipesize) (upper : rts.pipesize ≤ intMax)
    (excess : rts.pipesize > 1 ∧ hasGap rts = false) (startTime : Timespec) :
    openBrace :: ((hostMember rts plain).text ++ Member.others (finishMembers startTime rts)) =
      pipeText startTime plain (decimal rts.pipesize) := by
  rw [members_excess excess, pipeText, Member.others_append, Member.others_eq, Member.others_nil,
    List.append_nil, pipeMember, intMember_text, pipesize_toInt lower upper]

/-- No number at all. -/
theorem not_objectLine_empty (plain : rts.hostname.all isPlain = true) :
    ¬ObjectLine rts (pipeText startTime plain [] ++ Member.ending) := by
  have hsafe : Member.CutSafe
      (Member.ofString JsonKey.pipe.text [] (JsonKey.plain .pipe) rfl).written :=
    Member.cutSafe_string rfl
  have hcut : space :: keyed .pipe [] <+:
      space :: (Member.ofString JsonKey.pipe.text [] (JsonKey.plain .pipe) rfl).text := by
    change _ <+: space :: keyed .pipe ([] ++ [quote, quote])
    rw [keyed_append]
    exact List.prefix_append (space :: keyed .pipe []) _
  apply not_objectLine
  rw [pipeText, List.cons_append, List.append_assoc, List.append_assoc]
  apply Member.parse_cut_none (hostMember rts plain) _ hsafe hcut
  intro h
  have hlength := congrArg List.length h
  change (space :: keyed .pipe []).length = (space :: keyed .pipe [quote, quote]).length at hlength
  rw [List.length_cons, List.length_cons, length_keyed, length_keyed] at hlength
  exact absurd hlength (by decide)

/-- Another number than the one of the run. -/
theorem not_objectLine_other (plain : rts.hostname.all isPlain = true)
    (excess : rts.pipesize > 1 ∧ hasGap rts = false) {k : Int} (other : k ≠ rts.pipesize) :
    ¬ObjectLine rts (pipeText startTime plain (decimal k) ++ Member.ending) := by
  have hnodup : ((hostMember rts plain :: (frontMembers startTime rts ++
      [Member.ofInt JsonKey.pipe.text k (JsonKey.plain .pipe)])).map Member.key).Nodup := by
    have hkeys := keys_finish plain startTime
    rw [members_excess excess, List.map_cons, List.map_append] at hkeys
    rw [List.map_cons, List.map_append]
    exact hkeys ▸ nodup_keys rts
  have hfield := field_int hnodup (List.mem_cons_of_mem _
    (List.mem_append_right _ (List.mem_singleton_self _)))
  have hparse := Member.parse_objectText (hostMember rts plain) (frontMembers startTime rts ++
    [Member.ofInt JsonKey.pipe.text k (JsonKey.plain .pipe)])
  have hline : pipeText startTime plain (decimal k) ++ Member.ending =
      Member.objectText (hostMember rts plain) (frontMembers startTime rts ++
        [Member.ofInt JsonKey.pipe.text k (JsonKey.plain .pipe)]) ++ [0x0a] := by
    rw [Member.objectText_append, Member.others_append, Member.others_eq, Member.others_nil,
      List.append_nil, pipeText, List.cons_append, List.append_assoc, List.append_assoc,
      List.append_assoc]
    rfl
  rw [hline]
  intro h
  obtain ⟨body, members, -, -, hread, hdecoded⟩ := h
  rw [hparse] at hread
  cases hread
  have hpipe := hdecoded.pipe excess.1
  rw [hfield] at hpipe
  exact other (Option.some.inj hpipe)

/-- Without its last digit, the number of `pipe` is another number, or none. -/
theorem not_objectLine_digit (plain : rts.hostname.all isPlain = true)
    (excess : rts.pipesize > 1 ∧ hasGap rts = false) {value : List UInt8} {d : UInt8}
    (written : decimal rts.pipesize = value ++ [d]) :
    ¬ObjectLine rts (pipeText startTime plain value ++ Member.ending) := by
  have hmany := excess.1
  obtain ⟨n, hn⟩ := Int.eq_ofNat_of_zero_le (by omega : 0 ≤ rts.pipesize)
  rw [hn, decimal_natCast] at written
  by_cases hone : n < 10
  · rw [digits_of_lt hone] at written
    have hnil : value = [] := (List.append_inj' (written.symm.trans (List.nil_append _).symm) rfl).1
    rw [hnil]
    exact not_objectLine_empty plain
  · rw [digits_of_le (Nat.le_of_not_lt hone)] at written
    have hvalue : digits (n / 10) = value := (List.append_inj' written rfl).1
    rw [← hvalue, ← decimal_natCast]
    exact not_objectLine_other plain excess (by omega)

/-- With a comma too many, the text is an object only if it is the comma that has no room. -/
theorem objectLine_excess_iff (plain : rts.hostname.all isPlain = true)
    (short : rts.hostname.length + 10 < PING_JSON_MAX) (lower : -2147483648 ≤ rts.pipesize)
    (upper : rts.pipesize ≤ intMax) (excess : rts.pipesize > 1 ∧ hasGap rts = false)
    (exceeds : PING_JSON_MAX ≤ finishLength startTime rts) {b : PingJsonBuffer}
    (run : PingJsonBuffer.appendAll {} (finishAppends startTime rts) = .ok b) :
    ObjectLine rts (b.object.text ++ Member.ending) ↔
      Counted rts ∧ finishLength startTime rts = PING_JSON_MAX + 1 := by
  obtain ⟨front, append, hsplit, hle, hholds⟩ := sound_empty.appendAll_over
    (atEnd_finish startTime rts) (fun a ha => (small_finish plain short startTime a ha).1)
    (by rw [List.length_nil, Nat.zero_add]; exact exceeds) run
  obtain ⟨front', happends, hfront⟩ := finish_excess plain lower upper excess startTime
  obtain ⟨rfl, -⟩ := List.append_inj' (hsplit.symm.trans happends) rfl
  have htext : ((finishAppends startTime rts).map Append.text).flatten =
      openBrace :: ((hostMember rts plain).text ++ Member.others (finishMembers startTime rts)) ++
        comma :: [space] := by
    rw [happends, List.map_append, List.flatten_append, hfront]
    rfl
  have hlength : finishLength startTime rts = (openBrace :: ((hostMember rts plain).text ++
      Member.others (finishMembers startTime rts))).length + 2 := by
    rw [finishLength, htext, List.length_append]
    rfl
  rw [hfront, List.length_nil, Nat.zero_add] at hle
  rw [hholds.text, List.nil_append, htext]
  have hmax : PING_JSON_MAX = 4000 := rfl
  have hobject := objectLine_iff plain lower upper startTime
  rw [Member.objectText_append, ← List.append_assoc, ← List.cons_append] at hobject
  have hdigit := text_excess plain lower upper excess startTime
  obtain hlen | hlen | hlen : (openBrace :: ((hostMember rts plain).text ++
      Member.others (finishMembers startTime rts))).length = PING_JSON_MAX - 2 ∨
      (openBrace :: ((hostMember rts plain).text ++
        Member.others (finishMembers startTime rts))).length = PING_JSON_MAX - 1 ∨
      (openBrace :: ((hostMember rts plain).text ++
        Member.others (finishMembers startTime rts))).length = PING_JSON_MAX := by omega
  · -- the comma is still there
    have hbehind : (openBrace :: ((hostMember rts plain).text ++
        Member.others (finishMembers startTime rts))).length < PING_JSON_MAX - 1 := by
      rw [hlen]
      decide
    obtain ⟨q, htake, hq, -⟩ := @take_between _ [space] comma _ hbehind
      (by rw [List.length_append, hlen]; decide)
    rw [htake, List.cons_append, List.cons_append, List.append_assoc, List.append_assoc]
    have hnone := parse_excess_none (hostMember rts plain) (finishMembers startTime rts) hq
    refine ⟨fun h => absurd h (not_objectLine hnone), fun h => ?_⟩
    omega
  · -- it is the comma, and nothing else, that is cut off
    rw [List.take_left' hlen]
    refine hobject.trans ⟨fun h => ⟨h, ?_⟩, fun h => h.1⟩
    omega
  · -- the last digit is cut off, too
    obtain ⟨value, d, hwritten⟩ : ∃ value d, decimal rts.pipesize = value ++ [d] :=
      ⟨_, _, (List.dropLast_append_getLast (decimal_ne_nil _)).symm⟩
    rw [hwritten, pipeText_append] at hdigit
    have hvalue : (pipeText startTime plain value).length = PING_JSON_MAX - 1 := by
      rw [hdigit, List.length_append, List.length_singleton] at hlen
      omega
    rw [hdigit, List.append_assoc, List.take_left' hvalue]
    refine ⟨fun h => absurd h (not_objectLine_digit plain excess hwritten), fun h => ?_⟩
    omega

end Over

/-! ## Enough room -/

section Fits

variable {rts : PingRts} {startTime : Timespec}

theorem objectLine_fits_iff (plain : rts.hostname.all isPlain = true)
    (lower : -2147483648 ≤ rts.pipesize) (upper : rts.pipesize ≤ intMax) (startTime : Timespec) :
    ObjectLine rts (((finishAppends startTime rts).map Append.text).flatten ++ Member.ending) ↔
      Counted rts ∧ ¬(rts.pipesize > 1 ∧ hasGap rts = false) := by
  rw [finish_text plain lower upper]
  by_cases hexcess : rts.pipesize > 1 ∧ hasGap rts = false
  · have htrailing : trailing rts = [comma, space] := if_pos hexcess
    have hnone := parse_excess_none (hostMember rts plain) (finishMembers startTime rts)
      (List.prefix_refl [space])
    rw [htrailing, List.cons_append, List.append_assoc, List.append_assoc]
    exact ⟨fun h => absurd h (not_objectLine hnone), fun h => absurd hexcess h.2⟩
  · have htrailing : trailing rts = [] := if_neg hexcess
    have hobject := objectLine_iff plain lower upper startTime
    rw [Member.objectText_append] at hobject
    rw [htrailing, List.append_nil, and_iff_left hexcess, List.cons_append, List.append_assoc]
    exact hobject

theorem finishSound_fits_iff (times : hasTimes rts = true)
    (plain : rts.hostname.all isPlain = true) (short : rts.hostname.length + 10 < PING_JSON_MAX)
    (lower : -2147483648 ≤ rts.pipesize) (upper : rts.pipesize ≤ intMax)
    (stack : CBuffer PING_JSON_MAX) (fits : finishLength startTime rts < PING_JSON_MAX) :
    FinishSound rts (pingPrintFinish stack startTime rts {}) ↔
      Counted rts ∧ ¬(rts.pipesize > 1 ∧ hasGap rts = false) := by
  obtain ⟨b, hb, hsound⟩ := sound_empty.appendAll_of_fits (atEnd_finish startTime rts)
    (by rw [List.length_nil, Nat.zero_add]; exact fits)
  have hline := objectLine_fits_iff plain lower upper startTime
  rw [List.nil_append] at hsound
  rw [← hsound.holds.text] at hline
  rw [finishSound_iff times plain short stack, ← hline]
  constructor
  · rintro ⟨b', hb', h⟩
    rw [hb] at hb'
    cases hb'
    exact h
  · intro h
    exact ⟨b, hb, h⟩

/-- The last comma is written when everything in front of it has room. -/
theorem ends_excess (plain : rts.hostname.all isPlain = true)
    (lower : -2147483648 ≤ rts.pipesize) (upper : rts.pipesize ≤ intMax)
    (excess : rts.pipesize > 1 ∧ hasGap rts = false)
    (exact : finishLength startTime rts = PING_JSON_MAX + 1) :
    ∃ b, PingJsonBuffer.appendAll {} (finishAppends startTime rts) = .ok b := by
  obtain ⟨front, happends, -⟩ := finish_excess plain lower upper excess startTime
  have hatEnd := atEnd_finish startTime rts
  rw [finishLength, happends, List.map_append, List.flatten_append, List.length_append] at exact
  change _ + 2 = _ at exact
  obtain ⟨b, hb, hsound⟩ := sound_empty.appendAll_of_fits
    (fun a ha => hatEnd a (happends ▸ List.mem_append_left _ ha))
    (by rw [List.length_nil]; omega)
  rw [happends, appendAll_append, hb]
  rcases hsound.append_long (x := [comma, space])
      (by rw [List.length_append]; change PING_JSON_MAX ≤ 0 + _ + 2; omega) with
    ⟨hlong, -⟩ | ⟨-, b', hb', -⟩
  · exact absurd hlong (by decide)
  · refine ⟨b', ?_⟩
    change (b.append (.atEnd [comma, space]) >>= fun b => .ok b) = _
    rw [hb']
    rfl

/-- Without times there is nothing to print. -/
theorem pingPrintFinish_none {b : PingJsonBuffer} (h : Sound b []) (none : ¬hasTimes rts = true)
    (stack : CBuffer PING_JSON_MAX) : pingPrintFinish stack startTime rts b = .ok ([], b) := by
  have hempty : ¬(true = true ∧ b.started = true) := by
    rw [h.started]
    decide
  have hgap : pingPrintGap rts (tssub rts.curTime startTime) b = .ok b := by
    rw [pingPrintGap]
    split
    · rw [constructJsonStatisticsFlood, if_neg hempty]
    · rfl
  rw [pingPrintFinish, pingPrintStatistics, if_neg none]
  change (pingPrintGap rts (tssub rts.curTime startTime) b >>= fun b =>
    .ok (printJsonStatistics true b)) = _
  rw [hgap]
  change Except.ok (printJsonStatistics true b) = _
  rw [printJsonStatistics, if_neg hempty]

/-- Behind statistics for which there is room the buffer is empty again. -/
theorem pingPrintFinish_fits {b : PingJsonBuffer} (h : Sound b []) (stack : CBuffer PING_JSON_MAX)
    (fits : hasTimes rts = true → finishLength startTime rts < PING_JSON_MAX) :
    ∃ out b', pingPrintFinish stack startTime rts b = .ok (out, b') ∧ Sound b' [] := by
  by_cases htimes : hasTimes rts = true
  swap
  · exact ⟨[], b, pingPrintFinish_none h htimes stack, h⟩
  have hatEnd := atEnd_finish startTime rts
  have hlength := fits htimes
  rw [finishLength, finishAppends, List.map_append, List.flatten_append, List.length_append]
    at hlength
  have hatEnd₁ : AtEnd (statisticsAppends startTime rts) := fun a ha =>
    hatEnd a (List.mem_append_left _ ha)
  obtain ⟨b₁, hfirst, hsound₁⟩ := h.appendAll_of_fits hatEnd₁ (by rw [List.length_nil]; omega)
  rw [List.nil_append] at hsound₁
  obtain ⟨b₂, hsecond, hsound₂⟩ := hsound₁.appendAll_of_fits (atEnd_gap startTime rts) hlength
  have htext : ((statisticsAppends startTime rts).map Append.text).flatten ≠ [] :=
    List.cons_ne_nil _ _
  have hstarted₁ : b₁.started = true := by
    rw [hsound₁.started]
    exact decide_eq_true htext
  have hstarted₂ : b₂.started = true := by
    rw [hsound₂.started]
    exact decide_eq_true (List.append_ne_nil_of_left_ne_nil htext _)
  refine ⟨(printJsonAndReset b₂).1, (printJsonAndReset b₂).2, ?_, ?_⟩
  · rw [pingPrintFinish, pingPrintStatistics_eq h htimes, hfirst]
    change (pingPrintGap rts (tssub rts.curTime startTime) b₁ >>= fun b =>
      .ok (printJsonStatistics true b)) = _
    rw [pingPrintGap_eq htimes startTime hstarted₁, hsecond]
    change Except.ok (printJsonStatistics true b₂) = _
    rw [printJsonStatistics, if_pos ⟨rfl, hstarted₂⟩]
  · exact ⟨CBuffer.Holds.clear (by decide), rfl⟩

/-- The final statistics are nothing, or a line with the object of the run, exactly when there
is nothing to print, or the counters are in the range of `int` and no comma is too many. -/
theorem finish_line_iff (stack : CBuffer PING_JSON_MAX) (startTime : Timespec) (rts : PingRts)
    (plain : rts.hostname.all isPlain = true) (lower : -2147483648 ≤ rts.pipesize)
    (upper : rts.pipesize ≤ intMax) :
    FinishSound rts (pingPrintFinish stack startTime rts {}) ↔ Printable startTime rts := by
  rw [Printable]
  by_cases htimes : hasTimes rts = true
  swap
  · have hnone : hasTimes rts = false := Bool.eq_false_iff.mpr htimes
    rw [pingPrintFinish_none sound_empty htimes]
    exact ⟨fun _ => .inl hnone, fun _ => .inl rfl⟩
  have hsome : ¬hasTimes rts = false := by
    rw [htimes]
    exact Bool.true_eq_false.mp
  rw [or_iff_right hsome]
  by_cases hlong : PING_JSON_MAX ≤ rts.hostname.length + 10
  · rw [pingPrintFinish_long htimes plain hlong]
    refine ⟨fun _ => .inl hlong, fun _ => ?_⟩
    intro hstop
    cases hstop
  have hshort : rts.hostname.length + 10 < PING_JSON_MAX := Nat.lt_of_not_le hlong
  rw [or_iff_right hlong]
  by_cases hfits : finishLength startTime rts < PING_JSON_MAX
  · rw [finishSound_fits_iff htimes plain hshort lower upper stack hfits]
    apply and_congr_right
    intro _
    split
    next hexcess =>
      refine ⟨fun h => absurd hexcess h, fun h => ?_⟩
      omega
    next hcomplete => exact ⟨fun _ => hfits, fun _ => hcomplete⟩
  have hover : PING_JSON_MAX ≤ finishLength startTime rts := Nat.le_of_not_lt hfits
  rw [finishSound_iff htimes plain hshort stack]
  split
  next hexcess =>
    constructor
    · rintro ⟨b, hb, h⟩
      exact (objectLine_excess_iff plain hshort lower upper hexcess hover hb).mp h
    · intro h
      obtain ⟨b, hb⟩ := ends_excess plain lower upper hexcess h.2
      exact ⟨b, hb, (objectLine_excess_iff plain hshort lower upper hexcess hover hb).mpr h⟩
  next hcomplete =>
    constructor
    · rintro ⟨b, hb, h⟩
      exact absurd h (not_objectLine_over plain hshort lower upper hcomplete hover hb)
    · intro h
      exact absurd h.2 hfits

/-- One of one, at once. -/
def oneReply : PingRts :=
  { ntransmitted := 1, nreceived := 1, timing := true, tmin := 0, pipesize := 1
    hostname := [0x3a, 0x3a, 0x31] }

theorem finish_line_iff_one :
    FinishSound oneReply (pingPrintFinish CBuffer.zero {} oneReply {}) := by
  have hfits : finishLength {} oneReply < PING_JSON_MAX :=
    Nat.lt_of_le_of_lt (finishLength_le (by decide) {}) (by decide)
  apply (finish_line_iff CBuffer.zero {} oneReply (by decide) (by decide) (by decide)).mpr
  apply Or.inr
  apply Or.inr
  refine ⟨?_, ?_⟩
  · rw [counted_iff]
    decide
  · rw [if_neg (by decide)]
    exact hfits

/-- Two of two, where the second was sent before the first came back. -/
def twoReplies : PingRts :=
  { ntransmitted := 2, nreceived := 2, timing := true, tmin := 0, pipesize := 2
    hostname := [0x3a, 0x3a, 0x31] }

theorem finish_line_broken :
    twoReplies.hostname.all isPlain = true ∧
      ¬FinishSound twoReplies (pingPrintFinish CBuffer.zero {} twoReplies {}) := by
  refine ⟨by decide, ?_⟩
  have hfits : finishLength {} twoReplies < PING_JSON_MAX :=
    Nat.lt_of_le_of_lt (finishLength_le (by decide) {}) (by decide)
  rw [finishSound_fits_iff (by decide) (by decide) (by decide) (by decide) (by decide) _ hfits]
  intro h
  exact h.2 (by decide)

end Fits

end Coping.FinishLine
