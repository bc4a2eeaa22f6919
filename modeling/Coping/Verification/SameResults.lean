import Coping.Ping.JsonLoop
import Coping.Verification.Display
import Coping.Verification.FinishLine
import Coping.Verification.ReplyRemarks

/-!
# Options for the display, with `-j`

Two runs of the program on the same events have the same results, where none of the defects of
the printing comes up. With `-q` an error of the own host is not counted, whereas one from the
network is. With `-j` an error with a number reads behind its arguments, and a text without room
in its buffer ends the program or goes unnoticed. Where it has room, both buffers are empty again
behind every event, so that the program goes on as without `-j`.
-/

namespace Coping.SameResults

open CFormat Display JsonBuffer ReplyLine

/-- What a run is compared by: the counters, the times and where the program is. -/
structure Results where
  ntransmitted : Nat
  nreceived : Nat
  nrepeats : Nat
  nchecksum : Nat
  nerrors : Nat
  acked : UInt16
  tsum : Int
  tmin : Int
  tmax : Int
  stage : Stage
  deriving DecidableEq

def results (s : JsonState) : Results where
  ntransmitted := s.main.rts.ntransmitted
  nreceived := s.main.rts.nreceived
  nrepeats := s.main.rts.nrepeats
  nchecksum := s.main.rts.nchecksum
  nerrors := s.main.rts.nerrors
  acked := s.main.rts.acked
  tsum := s.main.rts.tsum
  tmin := s.main.rts.tmin
  tmax := s.main.rts.tmax
  stage := s.main.stage

/-- The object of an error has room, and the list of its strings an end. -/
def ErrorFits (ctx : JsonContext) (e : JsonEvent) (call : ErrorCall) : Prop :=
  call.errnum = 0 ∨ 0 < call.errnum ∧ ∃ behind, e.behind = some behind ∧
    (fieldTexts false [.arr .error
      [cString (truncated PING_ERROR_MAX call.text), ctx.strerror call.errnum]
      behind]).flatten.length < PING_JSON_MAX

/-- With `-j`, every text has room. -/
def Room (ctx : JsonContext) (settings : Settings) (s : JsonState) (e : JsonEvent) : Prop :=
  settings.optJson = true →
    (∀ call ∈ errorCalls ctx settings s.main e, ErrorFits ctx e call) ∧
      (e.event = .finish → hasTimes s.main.rts = true →
        FinishLine.finishLength ctx.startTime s.main.rts < PING_JSON_MAX)

/-- Nothing is left in the buffers. -/
structure Empty (s : JsonState) : Prop where
  jsonPacket : Sound s.jsonPacket []
  jsonStats : Sound s.jsonStats []

/-! ## A packet -/

/-- The items are printed, and nothing is left in the buffer. -/
def Completed (strerror : Int → CString) (items : List Printed) : Prop :=
  ∀ b, Sound b [] → ∃ out b', printPacket strerror items b = .ok (out, b') ∧ Sound b' []

section Packet

variable {strerror : Int → CString} {items : List Printed}

theorem Completed.remarked {made : Prop} {length : Nat} (remarked : Remarked made length items)
    (fits : length < PING_JSON_MAX) : Completed strerror items := by
  intro b h
  obtain ⟨line, b', hprint, hsound, -⟩ := printPacket_remarked h remarked fits
  exact ⟨_, b', hprint, hsound⟩

theorem Completed.nil : Completed strerror [] :=
  .remarked (.nil not_false) (by decide : 0 < PING_JSON_MAX)

theorem Completed.message (h : Completed strerror items) (text : List UInt8) :
    Completed strerror (pingError 0 text [] :: items) := by
  intro b hb
  obtain ⟨b', hsound, hmessage⟩ := @printPacket_message strerror b hb text
  obtain ⟨out, b'', hprint, hempty⟩ := h b' hsound
  rw [hmessage, hprint]
  exact ⟨_, b'', rfl, hempty⟩

theorem Completed.warned (h : Completed strerror items) (rts : PingRts) (reply : Reply) :
    Completed strerror (timeWarnings rts reply ++ items) := by
  rw [timeWarnings]
  split
  · split
    · exact (h.message _).message _
    · exact h.message _
  · exact h

/-- A reply, with what its caller prints behind it. -/
theorem completed_gathered {made behind : Prop} {length length' : Nat}
    {prReply ending : List Printed} (s : Settings) (rts : PingRts) (p : Packet)
    (wrongSource : Bool) (part : Part made length prReply) (part' : Part behind length' ending)
    (fits : 2300 + length + length' < PING_JSON_MAX) :
    Completed strerror ((gatherPrinted s rts p prReply wrongSource).1 ++
      if (gatherPrinted s rts p prReply wrongSource).2 then [] else ending) := by
  have hhead := part_head s rts p part
  rw [gatherPrinted]
  split
  · exact Completed.nil.warned rts p.reply
  split
  · rw [List.append_assoc]
    have hflooded := (remarked_flood p.reply.csfailed).append part'.toRemarked
    exact (Completed.remarked hflooded (by omega)).warned rts p.reply
  split
  · have hinfo : Part False 40 [printTruncated] := part_str .info (by decide) (by decide)
    rw [if_pos rfl, List.append_nil, List.append_assoc]
    exact (Completed.remarked (hhead.append hinfo).toRemarked (by omega)).warned rts p.reply
  · have htail := (part_tail s rts p wrongSource).append part'
    rw [List.append_assoc, List.append_assoc]
    exact (Completed.remarked (hhead.append htail).toRemarked (by omega)).warned rts p.reply

/-- Every packet is printed, whether it is a reply or not. -/
theorem completed_parsed (family : Family) (prAddr : PrAddr) (s : Settings) (sock : SockType)
    (rts : PingRts) (oldRr : List UInt8) (p : Packet) :
    Completed strerror (family.parseReply prAddr s sock rts oldRr p).printed := by
  have hshort : ∀ text,
      Completed strerror (if s.optVerbose then [pingError 0 text []] else []) := by
    intro text
    split
    · exact Completed.nil.message text
    · exact .nil
  cases family with
  | inet =>
      simp only [Family.parseReply, ping4ParseReply]
      split
      · exact hshort _
      split
      · split
        · exact .nil
        · have hgathered := @completed_gathered strerror _ _ _ _ _ _ s rts p
            (!rts.broadcastPings && !rts.multicast && p.source ≠ rts.whereto)
            (part_seq p.reply.seq) (part_end prAddr s sock rts p oldRr) (by decide)
          dsimp only
          rwa [apply_ite Prod.fst]
      split
      · exact .nil
      split
      · split
        · exact .nil
        split
        · exact .nil
        · exact .nil
      · exact .nil
  | inet6 =>
      simp only [Family.parseReply, ping6ParseReply, ping6ParseMessage]
      split
      · exact hshort _
      split
      · split
        · exact .nil
        · exact completed_gathered s rts p.counted _ (part_seq p.reply.seq) (part_audible s)
            (by decide)
      split
      · split
        · exact .nil
        · exact completed_gathered s rts p.counted _ (part_niquery p.icmp p.ni p.reply.cc)
            (part_audible s) (by decide)
      split
      · exact .nil
      split
      · split
        · exact .nil
        · exact .nil
      split
      · exact .nil
      · exact .nil

end Packet

/-! ## An event -/

section Event

variable {ctx : JsonContext} {settings : Settings} {s : JsonState} {e : JsonEvent}
variable {b : PingJsonBuffer}

theorem jsonPingError_fits (h : Sound b []) {call : ErrorCall} (fits : ErrorFits ctx e call) :
    ∃ b', jsonPingError ctx e b call = some b' ∧ Sound b' [] := by
  rw [jsonPingError]
  rcases fits with hzero | ⟨hpositive, behind, hbehind, hroom⟩
  · have hmember : errorMember ctx.strerror call.errnum
        (cString (truncated PING_ERROR_MAX call.text)) [] =
          .str .error (cString (truncated PING_ERROR_MAX call.text)) := if_pos hzero
    obtain ⟨b', hprint, hsound⟩ := @print_error ctx.strerror b h call.errnum
      (cString (truncated PING_ERROR_MAX call.text)) [] (Int.le_of_eq hzero.symm)
      (hmember ▸ message_fits call.text)
    refine ⟨b', ?_, hsound⟩
    rw [if_pos hzero, Option.bind_some, pingError, hprint]
    rfl
  · have hnonzero : ¬call.errnum = 0 := Int.ne_of_gt hpositive
    have hmember : errorMember ctx.strerror call.errnum
        (cString (truncated PING_ERROR_MAX call.text)) behind = .arr .error
          [cString (truncated PING_ERROR_MAX call.text), ctx.strerror call.errnum] behind :=
      if_neg hnonzero
    obtain ⟨b', hprint, hsound⟩ := @print_error ctx.strerror b h call.errnum
      (cString (truncated PING_ERROR_MAX call.text)) behind (Int.le_of_lt hpositive)
      (hmember ▸ hroom)
    refine ⟨b', ?_, hsound⟩
    rw [if_neg hnonzero, hbehind, Option.bind_some, pingError, hprint]
    rfl

theorem jsonPingErrors_fit (h : Sound b []) {calls : List ErrorCall}
    (fits : ∀ call ∈ calls, ErrorFits ctx e call) :
    ∃ b', calls.foldlM (jsonPingError ctx e) b = some b' ∧ Sound b' [] := by
  induction calls generalizing b with
  | nil => exact ⟨b, rfl, h⟩
  | cons call calls ih =>
      obtain ⟨b', hcall, hsound⟩ := jsonPingError_fits h (fits call List.mem_cons_self)
      obtain ⟨b'', hcalls, hempty⟩ := ih hsound fun c hc => fits c (List.mem_cons_of_mem _ hc)
      refine ⟨b'', ?_, hempty⟩
      rw [List.foldlM_cons, hcall]
      exact hcalls

theorem jsonParsed_ok (main : MainState) (h : Sound b []) (event : MainEvent) :
    ∃ b', jsonParsed ctx settings main b event = some b' ∧ Sound b' [] := by
  cases event with
  | packet p =>
      obtain ⟨out, b', hprint, hsound⟩ := @completed_parsed ctx.strerror ctx.family ctx.prAddr
        settings ctx.sock main.rts main.oldRr p b h
      refine ⟨b', ?_, hsound⟩
      rw [jsonParsed, mainParsed, hprint]
      rfl
  | _ => exact ⟨b, rfl, h⟩

theorem jsonFinish_fits (h : Sound s.jsonStats [])
    (fits : e.event = .finish → hasTimes s.main.rts = true →
      FinishLine.finishLength ctx.startTime s.main.rts < PING_JSON_MAX) :
    ∃ stats, jsonFinish ctx e s = some stats ∧ Sound stats [] := by
  rw [jsonFinish]
  split
  next hfinish =>
    obtain ⟨out, stats, hprint, hsound⟩ :=
      FinishLine.pingPrintFinish_fits h e.stack (fits hfinish)
    rw [hprint]
    exact ⟨stats, rfl, hsound⟩
  · exact ⟨s.jsonStats, rfl, h⟩

/-- What has room is printed, and the buffers are empty again. -/
theorem jsonPrinted_fits (empty : Empty s) (room : Room ctx settings s e)
    (json : settings.optJson = true) :
    ∃ printed, jsonPrinted ctx settings e s = some printed ∧
      Sound printed.1 [] ∧ Sound printed.2 [] := by
  obtain ⟨herrors, hfinish⟩ := room json
  obtain ⟨b, hparsed, hb⟩ := @jsonParsed_ok ctx settings _ s.main empty.jsonPacket e.event
  obtain ⟨b', hcalls, hb'⟩ := jsonPingErrors_fit hb herrors
  obtain ⟨stats, hstats, hempty⟩ := jsonFinish_fits empty.jsonStats hfinish
  refine ⟨(b', stats), ?_, hb', hempty⟩
  rw [jsonPrinted, hparsed, Option.bind_eq_bind, Option.bind_some, hcalls, Option.bind_some,
    hstats]
  rfl

/-- With room for the texts, an event does the same as without buffers. -/
theorem jsonMachine_step (empty : Empty s) (room : Room ctx settings s e) :
    Option.Rel (fun main t => t.main = main ∧ Empty t)
      ((mainMachine ctx.toMainContext settings).step s.main e.event)
      ((jsonMachine ctx settings).step s e) := by
  rw [jsonMachine]
  dsimp only
  cases (mainMachine ctx.toMainContext settings).step s.main e.event with
  | none => exact .none
  | some main =>
      rw [Option.bind_eq_bind, Option.bind_some]
      split
      next hjson =>
        obtain ⟨printed, hprinted, hpacket, hstats⟩ := jsonPrinted_fits empty room hjson
        rw [hprinted]
        exact .some ⟨rfl, hpacket, hstats⟩
      · exact .some ⟨rfl, empty.jsonPacket, empty.jsonStats⟩

end Event

/-! ## A run -/

/-- Other options for the display, and nothing in the buffers. -/
structure Same (look : Look) (s s' : JsonState) : Prop where
  main : SameMain look s.main s'.main
  empty : Empty s
  empty' : Empty s'

section Run

variable {look : Look} {ctx : JsonContext} {settings settings' : Settings} {s s' t : JsonState}
variable {e : JsonEvent}

theorem Same.results (h : Same look s s') : results s = results s' := by
  rw [SameResults.results, SameResults.results, h.main.rts, h.main.stage]
  rfl

theorem main_of_json (h : (jsonMachine ctx settings).step s e = some t) :
    (mainMachine ctx.toMainContext settings).step s.main e.event = some t.main := by
  obtain ⟨main, hmain, hprinted⟩ := Option.bind_eq_some_iff.mp h
  suffices t.main = main by rw [hmain, this]
  split at hprinted
  · obtain ⟨printed, -, heq⟩ := Option.bind_eq_some_iff.mp hprinted
    cases heq
    rfl
  · cases hprinted
    rfl

/-- Every event has the same effect, where what is printed has room. -/
theorem json_on (same : Same look s s') (set : SameLoop settings settings')
    (quiet : look.optQuiet = s.main.rts.optQuiet ∨ NoOwnError e.event)
    (room : Room ctx settings s e) (room' : Room ctx settings' s' e) :
    Option.Rel (Same look) ((jsonMachine ctx settings).step s e)
      ((jsonMachine ctx settings').step s' e) := by
  have hmain : Option.Rel (SameMain look)
      ((mainMachine ctx.toMainContext settings).step s.main e.event)
      ((mainMachine ctx.toMainContext settings').step s'.main e.event) :=
    main_on same.main set quiet
  have hjson := jsonMachine_step same.empty room
  have hjson' := jsonMachine_step same.empty' room'
  generalize (mainMachine ctx.toMainContext settings).step s.main e.event = main at hmain hjson
  generalize (mainMachine ctx.toMainContext settings').step s'.main e.event = main'
    at hmain hjson'
  generalize (jsonMachine ctx settings).step s e = next at hjson ⊢
  generalize (jsonMachine ctx settings').step s' e = next' at hjson' ⊢
  cases hmain with
  | none =>
      cases hjson
      cases hjson'
      exact .none
  | some hsame =>
      cases hjson with
      | some h =>
          cases hjson' with
          | some h' => exact .some ⟨h.1 ▸ h'.1 ▸ hsame, h.2, h'.2⟩

end Run

theorem empty_start (options : PingRts) : Empty { main := mainStart options } :=
  ⟨sound_empty, sound_empty⟩

/-- Two runs that differ in options for the display only go through the same counters and times,
leave the loop at the same event and end with the same status, as long as, with `-q` in one of
them only, no error of the own host comes up, and with `-j` everything that is printed has room. -/
theorem results_agree (ctx : JsonContext) (settings settings' : Settings) (look : Look)
    (options : PingRts) (es : List JsonEvent) (set : SameLoop settings settings')
    (quiet : look.optQuiet = options.optQuiet ∨ ∀ e ∈ es, NoOwnError e.event)
    (room : (jsonMachine ctx settings).Guarded (Room ctx settings)
      { main := mainStart options } es)
    (room' : (jsonMachine ctx settings').Guarded (Room ctx settings')
      { main := mainStart (look.on options) } es) (n : Nat) :
    ((jsonMachine ctx settings).final { main := mainStart options } (es.take n)).map results =
      ((jsonMachine ctx settings').final { main := mainStart (look.on options) }
        (es.take n)).map results := by
  have hmain : SameMain look (mainStart options) (mainStart (look.on options)) :=
    SameMain.top ⟨⟨rfl, rfl, rfl⟩, rfl, rfl, rfl⟩
  rw [← List.take_append_drop n es] at room room'
  have hquiet : ∀ e ∈ es.take n, look.optQuiet = options.optQuiet ∨ NoOwnError e.event :=
    fun e he => quiet.imp id fun h => h e (List.mem_of_mem_take he)
  suffices hrun : Option.Rel
      (fun s s' => Same look s s' ∧ s.main.rts.optQuiet = options.optQuiet)
      ((jsonMachine ctx settings).final { main := mainStart options } (es.take n))
      ((jsonMachine ctx settings').final { main := mainStart (look.on options) } (es.take n)) from
    hrun.map_eq fun _ _ h => h.1.results
  refine Machine.final_related ⟨⟨hmain, empty_start _, empty_start _⟩, rfl⟩ ?_
    ((Machine.guarded_append.mp room).1.and (Machine.guarded_of_mem hquiet))
    (Machine.guarded_append.mp room').1
  rintro s s' e ⟨hsame, hkept⟩ ⟨hroom, hquiet⟩ hroom'
  refine (json_on hsame set (hkept ▸ hquiet) hroom hroom').imp fun t t' hstep h => ⟨h, ?_⟩
  exact (optQuiet_kept (main_of_json hstep)).trans hkept

/-- A socket for datagrams. -/
def datagrams : JsonContext where
  family := .inet
  sock := .dgram
  prAddr := fun _ => ⟨.empty, .empty⟩
  strerror := fun _ => cString []

/-- One of one. -/
def single : PingRts := { npackets := 1, timing := true, hostname := [0x3a, 0x3a, 0x31] }

def answered : List JsonEvent := answeredOnce.map fun event => { event := event }

/-- With `-j` there is room for the statistics of a reply. -/
theorem room_answered :
    (jsonMachine datagrams { optJson := true }).Guarded (Room datagrams { optJson := true })
      { main := mainStart (silent.on single) } answered := by
  have hname : ((jsonMachine datagrams { optJson := true }).final
      { main := mainStart (silent.on single) } (answered.take 2)).map
        (fun s => s.main.rts.hostname) = some single.hostname := by
    decide +kernel
  refine ⟨fun _ => ⟨fun call h => ?_, fun h => MainEvent.noConfusion h⟩, fun s hs =>
    ⟨fun _ => ⟨fun call h => ?_, fun h => MainEvent.noConfusion h⟩, fun t ht =>
      ⟨fun _ => ⟨fun call h => ?_, fun _ _ => ?_⟩, fun _ _ => trivial⟩⟩⟩
  · exact absurd h List.not_mem_nil
  · exact absurd h List.not_mem_nil
  · exact absurd h List.not_mem_nil
  · have hfinal : (jsonMachine datagrams { optJson := true }).final
        { main := mainStart (silent.on single) } (answered.take 2) = some t := by
      change ((jsonMachine datagrams { optJson := true }).step _ _).bind _ = _
      rw [hs]
      exact (congrArg (Option.bind · some) ht).trans rfl
    rw [hfinal] at hname
    have hplain : t.main.rts.hostname = single.hostname := Option.some.inj hname
    have hlength := @FinishLine.finishLength_le t.main.rts (by rw [hplain]; decide)
      datagrams.startTime
    rw [hplain] at hlength
    exact Nat.lt_of_le_of_lt hlength (by decide)

theorem results_agree_answered :
    ((jsonMachine datagrams {}).final { main := mainStart single } (answered.take 3)).map results =
      ((jsonMachine datagrams { optJson := true }).final
        { main := mainStart (silent.on single) } (answered.take 3)).map results := by
  refine results_agree datagrams {} { optJson := true } silent single answered ⟨rfl, rfl⟩
    (.inr ?_) (Machine.guarded_of_forall fun _ _ h => absurd h Bool.false_ne_true) room_answered 3
  intro e he
  simp only [answered, answeredOnce, MainLoop.lateReply, List.map_cons, List.map_nil,
    List.mem_cons, List.not_mem_nil, or_false] at he
  obtain rfl | rfl | rfl := he
  · simp [NoOwnError, OwnError]
  · trivial
  · trivial

/-- With `-A`, a probe is too long for the network, and the error of the own host is read. -/
def tooLong : List JsonEvent :=
  [{ event := .send { clock := { tvSec := 1 }, attempts := [{ ret := -1, errno := EMSGSIZE }] } },
    { event := .poll (some true) },
    { event := .failed EAGAIN (.message
        { type := ICMP_ECHO
          id := 0
          sequence := 1
          ee := some { eeErrno := EMSGSIZE, eeOrigin := SO_EE_ORIGIN_LOCAL, eeInfo := 1500 } }) },
    { event := .failed EAGAIN (.failed EAGAIN) }]

def quiet : Look where
  optOutstanding := false
  optPtimeofday := false
  optQuiet := true
  screenWidth := 80

/-- Without `-q` the loop is left after the first of two probes, and with it there is another. -/
theorem results_differ_quiet :
    ((jsonMachine datagrams {}).final
        { main := mainStart { npackets := 2, optAdaptive := true } } tooLong).map results ≠
      ((jsonMachine datagrams {}).final
        { main := mainStart (quiet.on { npackets := 2, optAdaptive := true }) } tooLong).map
          results := by
  decide +kernel

end Coping.SameResults
