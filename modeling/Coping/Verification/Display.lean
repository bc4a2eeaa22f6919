import Coping.Verification.MainLoop

/-!
# What is displayed and what is done

Two runs of the program on the same events, with different options for what is printed. They
send the same packets, count the same and end alike, as long as no error of the own host comes
up: with `-q` it is not counted. `-j` is in neither of them: under it the display can end the
program, which is the matter of `SameResults`.
-/

namespace Coping.Display

open CInt

/-- The options of the runtime state that are about printing, and the width of the screen. -/
structure Look where
  optOutstanding : Bool
  optPtimeofday : Bool
  optQuiet : Bool
  screenWidth : Int

/-- The same state under another look. -/
def Look.on (look : Look) (rts : PingRts) : PingRts :=
  { rts with
    optOutstanding := look.optOutstanding
    optPtimeofday := look.optPtimeofday
    optQuiet := look.optQuiet
    screenWidth := look.screenWidth }

/-- The queue holds an error of the own host. -/
def OwnError : ErrorQueue → Prop
  | .failed _ => False
  | .message m => ∃ e, m.ee = some e ∧ e.eeOrigin = SO_EE_ORIGIN_LOCAL

/-- No error of the own host comes with the event. -/
def NoOwnError : MainEvent → Prop
  | .send c => ∀ a ∈ c.attempts, ¬OwnError a.queue
  | .failed _ queue => ¬OwnError queue
  | _ => True

/-! ## One function after the other -/

section Functions

variable (look : Look) (rts : PingRts)

theorem sendProbe_on (family : Family) (now : Timeval) :
    family.sendProbe (look.on rts) now =
      (look.on (family.sendProbe rts now).1, (family.sendProbe rts now).2) := by
  cases family <;> rfl

theorem updated_on :
    (if rts.optAdaptive then updateInterval (slowDown (look.on rts))
      else slowDown (look.on rts)) =
      look.on (if rts.optAdaptive then updateInterval (slowDown rts) else slowDown rts) := by
  split <;> rfl

theorem gatherTiming_on (reply : Reply) :
    gatherTiming (look.on rts) reply = look.on (gatherTiming rts reply) := by
  have hadaptive : (look.on rts).optAdaptive = rts.optAdaptive := rfl
  simp only [gatherTiming, hadaptive]
  split
  · rfl
  split
  · rfl
  · rfl

theorem receiveReply_on (reply : Reply) :
    receiveReply (look.on rts) reply = look.on (receiveReply rts reply) := by
  have hacked : (if reply.csfailed then countReceived (look.on rts)
        else acknowledge (countReceived (look.on rts)) reply.seq) =
      look.on (if reply.csfailed then countReceived rts
        else acknowledge (countReceived rts) reply.seq) := by
    split <;> rfl
  have htiming : (look.on rts).timing = rts.timing := rfl
  simp only [receiveReply, hacked, htiming]
  split
  · exact gatherTiming_on look _ reply
  · rfl

theorem gatherStatistics_on (reply : Reply) :
    gatherStatistics (look.on rts) reply = look.on (gatherStatistics rts reply) := by
  have htest : rcvdTest (look.on (receiveReply rts reply)) reply.seq =
      rcvdTest (receiveReply rts reply) reply.seq := rfl
  simp only [gatherStatistics, receiveReply_on, htest]
  split
  · rfl
  split
  · rfl
  · rfl

theorem exits_on : exits (look.on rts) = exits rts := rfl

theorem finishStatus_on : finishStatus (look.on rts) = finishStatus rts := rfl

end Functions

/-! ## The error queue -/

structure SameError (look : Look) (r r' : ErrorResult) : Prop where
  rts : r'.rts = look.on r.rts
  errno : r'.errno = r.errno
  result : r'.result = r.result

theorem receiveErrorMsg_on {look : Look} {rts : PingRts} {queue : ErrorQueue}
    (quiet : look.optQuiet = rts.optQuiet ∨ ¬OwnError queue) (family : Family) (sock : SockType)
    (errno : Int) :
    Option.Rel (SameError look) (family.receiveErrorMsg rts sock errno queue)
      (family.receiveErrorMsg (look.on rts) sock errno queue) := by
  have hours : ∀ id, isOurs (look.on rts) sock id = isOurs rts sock id := fun _ => rfl
  have htarget : (look.on rts).whereto = rts.whereto := rfl
  have htarget6 : (look.on rts).whereto6 = rts.whereto6 := rfl
  have hlocal : ∀ m e tooLong tooLong', queue = .message m → m.ee = some e →
      e.eeOrigin = SO_EE_ORIGIN_LOCAL → SameError look (localError rts errno e tooLong)
        (localError (look.on rts) errno e tooLong') := by
    intro m e tooLong tooLong' hqueue hee horigin
    have hquiet : look.optQuiet = rts.optQuiet :=
      quiet.resolve_right fun h => h (hqueue ▸ ⟨e, hee, horigin⟩)
    have hon : (look.on rts).optQuiet = rts.optQuiet := hquiet
    rw [localError, localError, hon]
    split
    · exact ⟨rfl, rfl, rfl⟩
    · exact ⟨rfl, rfl, rfl⟩
  cases family <;> cases queue with
  | failed queueErrno => exact .some ⟨rfl, rfl, rfl⟩
  | message m =>
      simp only [Family.receiveErrorMsg, ping4ReceiveErrorMsg, ping6ReceiveErrorMsg, hours,
        htarget, htarget6]
      split
      · exact .none
      next e hee =>
        split
        next horigin => exact .some (hlocal m e _ _ rfl hee horigin)
        split
        · split
          · exact .some ⟨rfl, rfl, rfl⟩
          · first
            | exact .some ⟨rfl, rfl, rfl⟩
            | (split
               · exact .none
               · exact .some ⟨rfl, rfl, rfl⟩)
        · exact .some ⟨rfl, rfl, rfl⟩

/-! ## A call of the pinger -/

/-- The static variables of the pinger are the same. -/
structure SamePing (look : Look) (s s' : PingState) : Prop where
  rts : s'.rts = look.on s.rts
  oomCount : s'.oomCount = s.oomCount
  tokens : s'.tokens = s.tokens

structure SameCall (look : Look) (r r' : Pinged) : Prop where
  state : SamePing look r.state r'.state
  ending : r'.ending = r.ending
  wait : r'.wait = r.wait
  sends : r'.sends = r.sends

section Pinger

variable {look : Look} {s s' : PingState}

theorem SamePing.sent (h : SamePing look s s') : SamePing look (probeSent s) (probeSent s') where
  rts := congrArg advanceNtransmitted h.rts
  oomCount := rfl
  tokens := h.tokens

theorem SamePing.failed (h : SamePing look s s') :
    SamePing look (probeFailed s) (probeFailed s') where
  rts := congrArg advanceNtransmitted h.rts
  oomCount := h.oomCount
  tokens := rfl

theorem SamePing.full (h : SamePing look s s') :
    SamePing look (queueFull s) (queueFull s') where
  rts := by
    rw [queueFull, queueFull, h.rts]
    exact updated_on look s.rts
  oomCount := congrArg (· + 1) h.oomCount
  tokens := rfl

theorem SamePing.hardError (h : SamePing look s s') {result result' errno errno' : Int}
    (packet : List UInt8) :
    SameCall look (hardLocalError s result errno packet)
      (hardLocalError s' result' errno' packet) where
  state := h.failed
  ending := rfl
  wait := by
    rw [hardLocalError, hardLocalError, h.rts]
    rfl
  sends := rfl

/-- The output has no influence. -/
theorem SameCall.printing {r r' : Pinged} (h : SameCall look r r') (out out' : List Output) :
    SameCall look { r with output := out } { r' with output := out' } :=
  ⟨h.state, h.ending, h.wait, h.sends⟩

theorem resend_on (family : Family) (sock : SockType) (same : SamePing look s s')
    {attempts : List Attempt}
    (quiet : look.optQuiet = s.rts.optQuiet ∨ ∀ a ∈ attempts, ¬OwnError a.queue) :
    Option.Rel (SameCall look) (resend family sock s attempts)
      (resend family sock s' attempts) := by
  induction attempts generalizing s s' with
  | nil => exact .none
  | cons a rest ih =>
      have hquiet : (family.sendProbe s.rts a.now).1.optQuiet = s.rts.optQuiet :=
        family.sendProbe_field (·.optQuiet) (fun _ _ => rfl) (fun _ _ => rfl)
          (fun _ _ _ => rfl) s.rts a.now
      rw [resend, resend, same.rts, sendProbe_on]
      generalize family.sendProbe s.rts a.now = built at hquiet ⊢
      obtain ⟨rts, packet⟩ := built
      have hbuilt : SamePing look { s with rts := rts } { s' with rts := look.on rts } :=
        ⟨rfl, same.oomCount, same.tokens⟩
      dsimp only at hquiet ⊢
      split
      · exact .some ⟨hbuilt.sent, rfl, by rw [same.tokens]; rfl, rfl⟩
      split
      · exact .none
      split
      · have hfull := hbuilt.full
        have hres : noresInterval (queueFull { s' with rts := look.on rts }).rts =
            noresInterval (queueFull { s with rts := rts }).rts :=
          (congrArg noresInterval hfull.rts).trans rfl
        have hlinger : (queueFull { s' with rts := look.on rts }).rts.lingertime =
            (queueFull { s with rts := rts }).rts.lingertime :=
          (congrArg PingRts.lingertime hfull.rts).trans rfl
        rw [hfull.oomCount, hres, hlinger]
        split
        · exact .some ⟨hfull, rfl, rfl, rfl⟩
        · exact .some (hfull.hardError packet)
      split
      · have hfull : SamePing look (socketFull { s with rts := rts })
            (socketFull { s' with rts := look.on rts }) :=
          ⟨rfl, same.oomCount, congrArg (toInt32 <| · + rts.interval) same.tokens⟩
        exact .some ⟨hfull, rfl, rfl, rfl⟩
      split
      · have hcounted : SamePing look { s with rts := countError rts }
            { s' with rts := countError (look.on rts) } := ⟨rfl, same.oomCount, same.tokens⟩
        exact .some (hcounted.hardError packet)
      have hqueue : look.optQuiet = rts.optQuiet ∨ ¬OwnError a.queue :=
        quiet.imp (fun h => h.trans hquiet.symm) fun h => h a List.mem_cons_self
      have hreceived := receiveErrorMsg_on hqueue family sock a.errno
      cases hr : family.receiveErrorMsg rts sock a.errno a.queue <;>
        cases hr' : family.receiveErrorMsg (look.on rts) sock a.errno a.queue <;>
        rw [hr, hr'] at hreceived <;> cases hreceived
      · exact .none
      next r r' hsame =>
        obtain ⟨hrts, herrno, hresult⟩ := hsame
        have hunsupported : confirmUnsupported r' = confirmUnsupported r := by
          rw [confirmUnsupported, confirmUnsupported, hrts, herrno, hresult]
          rfl
        have hkept : SamePing look { s with rts := unconfirmed r }
            { s' with
              rts := if confirmUnsupported r then forgetConfirm r'.rts else r'.rts } := by
          refine ⟨?_, same.oomCount, same.tokens⟩
          dsimp only
          rw [unconfirmed, hrts]
          split
          · rfl
          · rfl
        dsimp only
        rw [hresult, herrno, hunsupported]
        split
        · have hreported : SamePing look { s with rts := r.rts } { s' with rts := r'.rts } :=
            ⟨hrts, same.oomCount, same.tokens⟩
          exact .some ((hreported.hardError packet).printing _ _)
        split
        · have hrest := ih hkept (quiet.imp
            (fun h => by
              have hfield := Family.receiveErrorMsg_field (·.optQuiet) (fun _ _ => rfl)
                (fun _ => rfl) hr
              have hforget := unconfirmed_field (·.optQuiet) (fun _ => rfl) r
              exact h.trans ((hforget.trans hfield).trans hquiet).symm)
            fun h b hb => h b (List.mem_cons_of_mem a hb))
          exact hrest.map fun _ _ hended => ⟨hended.state, hended.ending, hended.wait,
            congrArg (packet :: ·) hended.sends⟩
        · exact .some ((hkept.hardError packet).printing _ _)

theorem pinger_on (family : Family) (sock : SockType) (same : SamePing look s s')
    {c : PingerCall}
    (quiet : look.optQuiet = s.rts.optQuiet ∨ ∀ a ∈ c.attempts, ¬OwnError a.queue) :
    Option.Rel (SameCall look) (pinger family sock s c) (pinger family sock s' c) := by
  have hrefill : refill (look.on s.rts) s.tokens c.clock = refill s.rts s.tokens c.clock := rfl
  have hexiting : (look.on s.rts).exiting = s.rts.exiting := rfl
  have hnpackets : (look.on s.rts).npackets = s.rts.npackets := rfl
  have hntransmitted : (look.on s.rts).ntransmitted = s.rts.ntransmitted := rfl
  have hdeadline : (look.on s.rts).deadline = s.rts.deadline := rfl
  rw [pinger, pinger, same.rts, same.tokens, hrefill, hexiting, hnpackets, hntransmitted,
    hdeadline]
  split
  · exact .some ⟨same, rfl, rfl, rfl⟩
  split
  · exact .some ⟨same, rfl, rfl, rfl⟩
  next tokens _ =>
    have hclock : SamePing look
        { s with rts := { s.rts with curTime := c.clock }, tokens := tokens }
        { s' with rts := { look.on s.rts with curTime := c.clock }, tokens := tokens } :=
      ⟨rfl, same.oomCount, rfl⟩
    exact (resend_on family sock hclock quiet).map fun _ _ h =>
      ⟨h.state, h.ending, h.wait, h.sends⟩

end Pinger

/-! ## A packet -/

/-- The options that more than the display depends on are the same. -/
structure SameLoop (settings settings' : Settings) : Prop where
  optVerbose : settings'.optVerbose = settings.optVerbose
  optFloodPoll : settings'.optFloodPoll = settings.optFloodPoll

/-- And `-j` is not set. -/
structure SameSettings (settings settings' : Settings) : Prop
    extends SameLoop settings settings' where
  optJson : settings.optJson = false ∧ settings'.optJson = false

theorem parseReply_on (look : Look) {settings settings' : Settings}
    (same : SameLoop settings settings') (family : Family) (prAddr prAddr' : PrAddr)
    (sock : SockType) (rts : PingRts) (oldRr oldRr' : List UInt8) (p : Packet) :
    (family.parseReply prAddr' settings' sock (look.on rts) oldRr' p).rts =
        look.on (family.parseReply prAddr settings sock rts oldRr p).rts ∧
      (family.parseReply prAddr' settings' sock (look.on rts) oldRr' p).notOurs =
        (family.parseReply prAddr settings sock rts oldRr p).notOurs := by
  have hours : ∀ id, isOurs (look.on rts) sock id = isOurs rts sock id := fun _ => rfl
  have htarget : (look.on rts).whereto = rts.whereto := rfl
  have htarget6 : (look.on rts).whereto6 = rts.whereto6 := rfl
  have huid : (look.on rts).uid = rts.uid := rfl
  have hni : (look.on rts).ni = rts.ni := rfl
  cases family with
  | inet =>
      simp only [Family.parseReply, ping4ParseReply, hours, htarget]
      split
      · exact ⟨rfl, rfl⟩
      split
      · split
        · exact ⟨rfl, rfl⟩
        · exact ⟨gatherStatistics_on look rts p.reply, rfl⟩
      split
      · exact ⟨rfl, rfl⟩
      split
      · split
        · exact ⟨rfl, rfl⟩
        split
        · exact ⟨rfl, rfl⟩
        · exact ⟨rfl, rfl⟩
      · exact ⟨rfl, rfl⟩
  | inet6 =>
      simp only [Family.parseReply, ping6ParseReply, ping6ParseMessage, hours, htarget6, huid, hni,
        same.optVerbose]
      split
      · exact ⟨rfl, rfl⟩
      split
      · split
        · exact ⟨rfl, rfl⟩
        · exact ⟨gatherStatistics_on look rts p.counted.reply, rfl⟩
      split
      · split
        · exact ⟨rfl, rfl⟩
        · exact ⟨gatherStatistics_on look rts p.counted.reply, rfl⟩
      split
      · exact ⟨rfl, rfl⟩
      split
      · split
        · exact ⟨rfl, rfl⟩
        · exact ⟨rfl, rfl⟩
      split
      · exact ⟨rfl, rfl⟩
      · exact ⟨rfl, rfl⟩

/-! ## The run -/

/-- The packets that an event hands to the kernel. -/
def transmitted (ctx : MainContext) (s : MainState) : MainEvent → List (List UInt8)
  | .send c => ((pinger ctx.family ctx.sock s.loop.ping c).map (·.sends)).getD []
  | _ => []

/-- The program, with a record of the packets. -/
def recorded (ctx : MainContext) (settings : Settings) :
    Machine (MainState × List (List UInt8)) MainEvent :=
  (mainMachine ctx settings).logged fun s e _ sent => sent ++ transmitted ctx s e

/-- Only what is displayed is different. -/
structure SameMain (look : Look) (s s' : MainState) : Prop where
  ping : SamePing look s.loop.ping s'.loop.ping
  waittime : s'.loop.waittime = s.loop.waittime
  stage : s'.stage = s.stage
  once : s'.once = s.once

/-- The same, with the same packets. -/
structure SameRun (look : Look) (s s' : MainState × List (List UInt8)) : Prop where
  main : SameMain look s.1 s'.1
  sent : s'.2 = s.2

section Run

variable {look : Look} {ctx : MainContext} {settings settings' : Settings} {prAddr' : PrAddr}
variable {s s' t : MainState} {e : MainEvent}

theorem SameMain.rts (h : SameMain look s s') : s'.rts = look.on s.rts := h.ping.rts

theorem SameMain.top (h : SameMain look s s') : SameMain look s.top s'.top where
  ping := h.ping
  waittime := h.waittime
  stage := by
    rw [MainState.top, MainState.top, h.rts, exits_on]
  once := h.once

theorem SameMain.again (h : SameMain look s s') (recvError : Bool) :
    SameMain look (s.again recvError) (s'.again recvError) := by
  have hflight : inFlight s'.rts = inFlight s.rts := by
    rw [h.rts]
    rfl
  rw [MainState.again, MainState.again, hflight]
  split
  · exact h.top
  · exact ⟨h.ping, h.waittime, rfl, h.once⟩

theorem SameMain.withRts (h : SameMain look s s') {rts rts' : PingRts}
    (same : rts' = look.on rts) : SameMain look (s.withRts rts) (s'.withRts rts') :=
  ⟨⟨same, h.ping.oomCount, h.ping.tokens⟩, h.waittime, h.stage, h.once⟩

theorem sendPass_on (family : Family) (sock : SockType) {c : PingerCall}
    (same : SameMain look s s')
    (quiet : look.optQuiet = s.rts.optQuiet ∨ ∀ a ∈ c.attempts, ¬OwnError a.queue) :
    Option.Rel
      (fun pass pass' => SamePing look pass.state.ping pass'.state.ping ∧
        pass'.state.waittime = pass.state.waittime ∧ pass'.next = pass.next)
      (sendPass family sock s.loop c) (sendPass family sock s'.loop c) := by
  refine (pinger_on family sock same.ping quiet).map ?_
  intro r r' h
  have hexit : scheduleExit r'.state.rts s'.loop.waittime r'.wait =
      scheduleExit r.state.rts s.loop.waittime r.wait := by
    rw [h.state.rts, same.waittime, h.wait]
    rfl
  dsimp only
  rw [hexit]
  exact ⟨h.state, rfl, rfl⟩

theorem waitStage_on (set : SameLoop settings settings') (rts : PingRts) (hz next : Int) :
    waitStage hz settings' (look.on rts) next = waitStage hz settings rts next := by
  rw [waitStage, waitStage, set.optFloodPoll]
  rfl

/-- Every event has the same effect. -/
theorem main_on (same : SameMain look s s') (set : SameLoop settings settings')
    (quiet : look.optQuiet = s.rts.optQuiet ∨ NoOwnError e) :
    Option.Rel (SameMain look) ((mainMachine ctx settings).step s e)
      ((mainMachine { ctx with prAddr := prAddr' } settings').step s' e) := by
  cases e with
  | signal =>
      refine .some (same.withRts ?_)
      rw [same.rts]
      rfl
  | send c =>
      simp only [mainMachine, same.stage]
      split
      · refine (sendPass_on ctx.family ctx.sock same quiet).map ?_
        rintro pass pass' ⟨hping, hwait, hnext⟩
        refine ⟨hping, hwait, ?_, same.once⟩
        dsimp only
        rw [hping.rts, hnext, waitStage_on set]
      · exact .none
  | poll revents =>
      simp only [mainMachine, same.stage]
      split
      · cases revents with
        | none => exact .some same.top
        | some pollerr => exact .some ⟨same.ping, same.waittime, rfl, same.once⟩
      · exact .none
  | packet p =>
      simp only [mainMachine, same.stage]
      split
      next recvError _ =>
        obtain ⟨hrts, hours⟩ := parseReply_on look set ctx.family ctx.prAddr prAddr' ctx.sock s.rts
          s.oldRr s'.oldRr p
        have hparsed := same.withRts (hrts ▸ congrArg (fun rts =>
          (ctx.family.parseReply prAddr' settings' ctx.sock rts s'.oldRr p).rts) same.rts)
        refine .some ?_
        rw [mainPacket, mainPacket]
        apply SameMain.again
        refine ⟨hparsed.ping, hparsed.waittime, hparsed.stage, ?_⟩
        dsimp only
        rw [same.rts, hours, same.once]
      · exact .none
  | failed errno queue =>
      simp only [mainMachine, same.stage]
      split
      next recvError _ =>
        rw [mainFailed, mainFailed]
        split
        · exact .some same.top
        rw [same.rts]
        refine (receiveErrorMsg_on quiet ctx.family ctx.sock errno).map ?_
        rintro r r' ⟨hrts, herrno, hresult⟩
        have hreceived := same.withRts hrts
        rw [hresult, herrno]
        split
        · exact hreceived.top
        · apply SameMain.again
          refine ⟨hreceived.ping, hreceived.waittime, hreceived.stage, ?_⟩
          dsimp only
          rw [same.once]
      · exact .none
  | finish =>
      simp only [mainMachine, same.stage]
      split
      · refine .some ⟨same.ping, same.waittime, ?_, same.once⟩
        dsimp only
        rw [same.rts, finishStatus_on]
      · exact .none

/-- No event changes how quiet the program is. -/
theorem optQuiet_kept (step : (mainMachine ctx settings).step s e = some t) :
    t.rts.optQuiet = s.rts.optQuiet := by
  cases MainLoop.main_stepped step with
  | signal => rfl
  | send _ passed loop =>
      obtain ⟨r, hr, rfl⟩ := Option.map_eq_some_iff.mp passed
      have hrts : t.rts = r.state.rts := congrArg (·.ping.rts) loop
      rw [hrts]
      exact pinger_field (·.optQuiet) {} hr
  | received _ absorbed => exact absorbed.field (·.optQuiet) {} (fun _ => rfl) fun _ => rfl
  | finish => rfl

theorem recorded_on {u u' : MainState × List (List UInt8)} (same : SameRun look u u')
    (set : SameLoop settings settings')
    (quiet : look.optQuiet = u.1.rts.optQuiet ∨ NoOwnError e) :
    Option.Rel (SameRun look) ((recorded ctx settings).step u e)
      ((recorded { ctx with prAddr := prAddr' } settings').step u' e) := by
  have hsent : transmitted { ctx with prAddr := prAddr' } u'.1 e = transmitted ctx u.1 e := by
    cases e with
    | send c =>
        have hcall := pinger_on ctx.family ctx.sock same.main.ping quiet
        rw [transmitted, transmitted]
        dsimp only
        generalize pinger ctx.family ctx.sock u.1.loop.ping c = call at hcall ⊢
        generalize pinger ctx.family ctx.sock u'.1.loop.ping c = call' at hcall ⊢
        cases hcall with
        | some h => exact h.sends
        | none => rfl
    | signal => rfl
    | poll revents => rfl
    | packet p => rfl
    | failed errno queue => rfl
    | finish => rfl
  refine (main_on same.main set quiet).map ?_
  intro t t' hmain
  refine ⟨hmain, ?_⟩
  dsimp only
  rw [same.sent, hsent]

end Run

/-- Whatever is sent, comes back or fails: with other options for the display but `-j` the program
accepts the same events, is at the same place behind each of them, has counted and measured the
same and has sent the same packets. With `-q` in one of the runs only, no error of the own host may
come up. -/
theorem display_irrelevant (ctx : MainContext) (prAddr' : PrAddr) (settings settings' : Settings)
    (look : Look) (options : PingRts) (es : List MainEvent)
    (set : SameSettings settings settings')
    (quiet : look.optQuiet = options.optQuiet ∨ ∀ e ∈ es, NoOwnError e) :
    Option.Rel (SameRun look) ((recorded ctx settings).final (mainStart options, []) es)
      ((recorded { ctx with prAddr := prAddr' } settings').final (mainStart (look.on options), [])
        es) := by
  have hstart : SameRun look (mainStart options, []) (mainStart (look.on options), []) := by
    refine ⟨SameMain.top ⟨⟨rfl, rfl, rfl⟩, rfl, rfl, rfl⟩, rfl⟩
  suffices hrun : Option.Rel
      (fun s u => SameRun look s u ∧ s.1.rts.optQuiet = options.optQuiet)
      ((recorded ctx settings).final (mainStart options, []) es)
      ((recorded { ctx with prAddr := prAddr' } settings').final (mainStart (look.on options), [])
        es) from hrun.imp fun _ _ _ h => h.1
  refine Machine.final_related (H := fun _ _ => True) ⟨hstart, rfl⟩ ?_
    (Machine.guarded_of_mem fun e he => quiet.imp id fun h => h e he)
    (Machine.guarded_of_forall fun _ _ => trivial)
  rintro s u e ⟨hsame, hquiet⟩ he -
  refine (recorded_on hsame set.toSameLoop (hquiet ▸ he)).imp fun t v hstep h => ⟨h, ?_⟩
  exact (optQuiet_kept (Machine.logged_step hstep).1).trans hquiet

/-- `-q` and `-D`. -/
def silent : Look where
  optOutstanding := false
  optPtimeofday := true
  optQuiet := true
  screenWidth := 80

/-- A probe, its answer, and the end. -/
def answeredOnce : List MainEvent :=
  [.send { clock := { tvSec := 1 }, attempts := [{ ret := 0 }] }, MainLoop.lateReply, .finish]

theorem display_irrelevant_silent :
    Option.Rel (SameRun silent)
      ((recorded { family := .inet, sock := .dgram, prAddr := fun _ => ⟨.empty, .empty⟩ } {}).final
        (mainStart { npackets := 1 }, []) answeredOnce)
      ((recorded { family := .inet, sock := .dgram, prAddr := fun _ => ⟨.empty, .empty⟩ }
        { optAudible := true }).final (mainStart (silent.on { npackets := 1 }), [])
          answeredOnce) := by
  refine display_irrelevant { family := .inet, sock := .dgram, prAddr := fun _ => ⟨.empty, .empty⟩ }
    (fun _ => ⟨.empty, .empty⟩) {} { optAudible := true } silent { npackets := 1 }
    answeredOnce ⟨⟨rfl, rfl⟩, rfl, rfl⟩ (.inr ?_)
  intro e he
  simp only [answeredOnce, MainLoop.lateReply, List.mem_cons, List.not_mem_nil, or_false] at he
  obtain rfl | rfl | rfl := he
  · simp [NoOwnError, OwnError]
  · trivial
  · trivial

end Coping.Display
