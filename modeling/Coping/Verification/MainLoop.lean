import Coping.Ping.MainLoop
import Coping.Verification.CountTest

/-!
# Leaving the main loop

The exit conditions are tested at the top of the outer loop only. What the inner loop receives can
make them true and never false again, so that no probe is sent from there on. Behind the loop one
of them holds, and the exit status is told by the counters.
-/

namespace Coping.MainLoop

open CountTest

/-- What a message can make of the runtime state. -/
inductive Absorbed (rts : PingRts) : PingRts → Prop where
  | unchanged : Absorbed rts rts
  | reply (r : Reply) : Absorbed rts (gatherStatistics rts r)
  | acknowledged (seq : UInt16) : Absorbed rts (acknowledge rts seq)
  | error {family : Family} {sock : SockType} {errno : Int} {queue : ErrorQueue} {r : ErrorResult}
      (received : family.receiveErrorMsg rts sock errno queue = some r) : Absorbed rts r.rts

section Spec

variable {ctx : MainContext} {settings : Settings} {rts rts' : PingRts} {s t : MainState}
variable {e : MainEvent}

theorem absorbed_parseReply (family : Family) (prAddr : PrAddr) (settings : Settings)
    (sock : SockType) (rts : PingRts) (oldRr : List UInt8) (p : Packet) :
    Absorbed rts (family.parseReply prAddr settings sock rts oldRr p).rts := by
  cases family with
  | inet =>
      simp only [Family.parseReply, ping4ParseReply]
      split
      · exact .unchanged
      split
      · split
        · exact .unchanged
        · exact .reply p.reply
      split
      · exact .unchanged
      split
      · split
        · exact .unchanged
        split
        · exact .acknowledged p.quoted.sequence
        · exact .unchanged
      · exact .unchanged
  | inet6 =>
      simp only [Family.parseReply, ping6ParseReply]
      split
      · exact .unchanged
      split
      · split
        · exact .unchanged
        · exact .reply p.counted.reply
      split
      · split
        · exact .unchanged
        · exact .reply p.counted.reply
      · rw [ping6ParseMessage]
        split
        · exact .unchanged
        split
        · split
          · exact .unchanged
          · exact .acknowledged p.quoted.sequence
        split
        · exact .unchanged
        · exact .unchanged

/-- A field of the options. -/
theorem Absorbed.field {α : Type} (h : Absorbed rts rts') (field : PingRts → α)
    (steady : Steady field) (counted : ∀ rts, field (countError rts) = field rts)
    (updated : ∀ rts, field (updateInterval rts) = field rts) : field rts' = field rts := by
  cases h with
  | unchanged => rfl
  | reply r => exact gatherStatistics_field field steady rts r fun _ => updated
  | acknowledged seq => exact steady.acknowledged rts seq
  | error received =>
      exact Family.receiveErrorMsg_field field steady.acknowledged counted received

/-- No counter of the exit conditions goes back. -/
theorem Absorbed.le (h : Absorbed rts rts') :
    rts.nreceived ≤ rts'.nreceived ∧ rts.nerrors ≤ rts'.nerrors := by
  cases h with
  | unchanged => exact ⟨le_rfl, le_rfl⟩
  | reply r =>
      have herrors := gatherStatistics_field (·.nerrors) {} rts r fun _ _ => rfl
      rw [gatherStatistics_nreceived]
      exact ⟨Nat.le_add_right _ _, herrors.ge⟩
  | acknowledged seq => exact ⟨le_rfl, le_rfl⟩
  | error received =>
      have hreceived := Family.receiveErrorMsg_field (·.nreceived) (fun _ _ => rfl)
        (fun _ => rfl) received
      refine ⟨hreceived.ge, ?_⟩
      cases Family.receivedError received with
      | failed => exact le_rfl
      | own =>
          rw [localError]
          split
          · exact le_rfl
          · exact Nat.le_succ _
      | other => exact le_rfl
      | network _ hacknowledged =>
          obtain rfl | rfl := hacknowledged
          · exact Nat.le_succ _
          · exact Nat.le_succ _

theorem exits_iff : exits rts = true ↔ rts.exiting = true ∨
    (rts.npackets ≠ 0 ∧ rts.npackets ≤ rts.nreceived + rts.nerrors) ∨
      (rts.deadline ≠ 0 ∧ rts.nerrors ≠ 0) := by
  simp only [exits, Bool.or_eq_true, Bool.and_eq_true, decide_eq_true_eq, or_assoc, ge_iff_le]

/-- An exit condition that holds goes on to hold. -/
theorem Absorbed.exits (h : Absorbed rts rts') (holds : exits rts = true) :
    exits rts' = true := by
  obtain ⟨hreceived, herrors⟩ := h.le
  have hnpackets := h.field (·.npackets) {} (fun _ => rfl) fun _ => rfl
  have hdeadline := h.field (·.deadline) {} (fun _ => rfl) fun _ => rfl
  have hexiting := h.field (·.exiting) {} (fun _ => rfl) fun _ => rfl
  rw [exits_iff] at holds ⊢
  rw [hnpackets, hdeadline, hexiting]
  obtain hsignal | ⟨hlimit, hcount⟩ | ⟨hlimit, herror⟩ := holds
  · exact .inl hsignal
  · exact .inr (.inl ⟨hlimit, by omega⟩)
  · exact .inr (.inr ⟨hlimit, by omega⟩)

/-- Where a step leads that is no call of `pinger`, no signal and not the last one. -/
def Onward (t : MainState) : Prop := t = t.top ∨ ∃ recvError, t.stage = .receiving recvError

theorem onward_top (s : MainState) : Onward s.top := .inl rfl

theorem onward_again (s : MainState) (recvError : Bool) : Onward (s.again recvError) := by
  rw [MainState.again]
  split
  · exact onward_top s
  · exact .inr ⟨recvError, rfl⟩

theorem rts_again (s : MainState) (recvError : Bool) : (s.again recvError).rts = s.rts := by
  rw [MainState.again]
  split <;> rfl

/-- What a step does. -/
inductive Stepped (ctx : MainContext) (s : MainState) : MainEvent → MainState → Prop where
  | signal : Stepped ctx s .signal (s.withRts { s.rts with exiting := true })
  | send {c : PingerCall} {pass : Pass} {t : MainState} (sending : s.stage = .sending)
      (passed : sendPass ctx.family ctx.sock s.loop c = some pass) (loop : t.loop = pass.state)
      (stage : t.stage = .sending ∨ t.stage = .polling ∨ t.stage = .receiving false) :
      Stepped ctx s (.send c) t
  | received {e : MainEvent} {t : MainState}
      (waiting : s.stage = .polling ∨ ∃ recvError, s.stage = .receiving recvError)
      (absorbed : Absorbed s.rts t.rts) (onward : Onward t) : Stepped ctx s e t
  | finish (left : s.stage = .left) :
      Stepped ctx s .finish { s with stage := .finished (finishStatus s.rts) }

theorem waitStage_cases (hz : Int) (settings : Settings) (rts : PingRts) (next : Int) :
    waitStage hz settings rts next = .polling ∨
      waitStage hz settings rts next = .receiving false := by
  simp only [waitStage]
  split
  · split
    · exact .inl rfl
    · exact .inr rfl
  · exact .inr rfl

theorem main_stepped (h : (mainMachine ctx settings).step s e = some t) : Stepped ctx s e t := by
  cases e with
  | signal =>
      cases h
      exact .signal
  | send c =>
      obtain ⟨hstage, hsend⟩ := Option.ite_none_right_eq_some.mp h
      obtain ⟨pass, hpass, rfl⟩ := Option.map_eq_some_iff.mp hsend
      refine .send hstage hpass rfl ?_
      dsimp only
      split
      · exact .inl rfl
      · exact .inr (waitStage_cases ctx.hz settings _ _)
  | poll revents =>
      obtain ⟨hstage, hpoll⟩ := Option.ite_none_right_eq_some.mp h
      cases hpoll
      cases revents with
      | none => exact .received (.inl hstage) .unchanged (onward_top s)
      | some pollerr => exact .received (.inl hstage) .unchanged (.inr ⟨pollerr, rfl⟩)
  | packet p =>
      simp only [mainMachine] at h
      split at h
      next recvError hstage =>
        cases h
        refine .received (.inr ⟨recvError, hstage⟩) ?_ (onward_again _ _)
        rw [mainPacket, rts_again]
        exact absorbed_parseReply ctx.family ctx.prAddr settings ctx.sock s.rts s.oldRr p
      · cases h
  | failed errno queue =>
      simp only [mainMachine] at h
      split at h
      next recvError hstage =>
        rw [mainFailed] at h
        split at h
        · cases h
          exact .received (.inr ⟨recvError, hstage⟩) .unchanged (onward_top s)
        · obtain ⟨r, hr, rfl⟩ := Option.map_eq_some_iff.mp h
          refine .received (.inr ⟨recvError, hstage⟩) ?_ ?_
          · split
            · exact .error hr
            · rw [rts_again]
              exact .error hr
          · split
            · exact onward_top _
            · exact onward_again _ _
      · cases h
  | finish =>
      obtain ⟨hleft, hfinish⟩ := Option.ite_none_right_eq_some.mp h
      cases hfinish
      exact .finish hleft

end Spec

/-! ## The end of sending -/

/-- An exit condition holds, and the program is not about to send. -/
structure Closing (ntransmitted : Nat) (s : MainState) : Prop where
  exits : exits s.rts = true
  stage : s.stage ≠ .sending
  ntransmitted : s.rts.ntransmitted = ntransmitted

theorem Closing.step {ctx : MainContext} {settings : Settings} {s t : MainState} {e : MainEvent}
    {n : Nat} (h : Closing n s) (step : (mainMachine ctx settings).step s e = some t) :
    Closing n t := by
  cases main_stepped step with
  | signal => exact ⟨exits_iff.mpr (.inl rfl), h.stage, h.ntransmitted⟩
  | send sending => exact absurd sending h.stage
  | received _ absorbed onward =>
      have hexits := absorbed.exits h.exits
      refine ⟨hexits, ?_, ?_⟩
      · obtain htop | ⟨recvError, hstage⟩ := onward
        · rw [htop, MainState.top, if_pos hexits]
          exact fun hsending => Stage.noConfusion hsending
        · rw [hstage]
          exact fun hsending => Stage.noConfusion hsending
      · exact (absorbed.field (·.ntransmitted) {} (fun _ => rfl) fun _ => rfl).trans h.ntransmitted
  | finish => exact ⟨h.exits, fun hsending => Stage.noConfusion hsending, h.ntransmitted⟩

/-- When an exit condition holds while the program waits or receives, it sends nothing any more,
whatever comes in before it notices. -/
theorem sending_over (ctx : MainContext) (settings : Settings) (s : MainState) (es : List MainEvent)
    (holds : exits s.rts = true) (waiting : s.stage ≠ .sending) :
    (mainMachine ctx settings).Always (Closing s.rts.ntransmitted) s es :=
  Machine.Always.of_invariant (G := fun _ _ => True) ⟨holds, waiting, rfl⟩
    (fun _ _ _ h _ hstep => h.step hstep) (Machine.guarded_of_forall fun _ _ => trivial)

/-- A signal has come, and a packet is read after it. -/
def interrupted : MainState where
  loop := { ping := { rts := { exiting := true } } }
  stage := .receiving false

def lateReply : MainEvent :=
  .packet
    { reply := { cc := 8, seq := 1, csfailed := false }
      type := ICMP_ECHOREPLY
      host := ⟨.empty, .empty⟩ }

theorem sending_over_interrupted :
    (mainMachine { family := .inet, sock := .dgram, prAddr := fun _ => ⟨.empty, .empty⟩ } {}).Always
      (Closing 0) interrupted [lateReply, .finish] :=
  sending_over _ {} interrupted [lateReply, .finish] rfl fun hsending => Stage.noConfusion hsending

/-! ## The exit status -/

/-- What is known of a run, and at its end. -/
structure Sound (options : PingRts) (s : MainState) : Prop where
  /-- With `-c` and without `-w` no more probes are sent than were asked for. -/
  limited : options.npackets ≠ 0 → options.deadline = 0 →
    s.rts.ntransmitted ≤ options.npackets
  /-- The loop is left for a reason. -/
  reason : (s.stage = .left ∨ ∃ status, s.stage = .finished status) → s.rts.exiting = true ∨
    (options.npackets ≠ 0 ∧ options.npackets ≤ s.rts.nreceived + s.rts.nerrors) ∨
      (options.deadline ≠ 0 ∧ s.rts.nerrors ≠ 0)
  /-- Success is that something came back, and with `-w` everything. -/
  status : ∀ status, s.stage = .finished status → (status = false ↔ 0 < s.rts.nreceived ∧
    (options.deadline = 0 ∨ options.npackets ≤ s.rts.nreceived))
  /-- A run that nothing has interrupted has received all it was asked for. -/
  complete : ∀ status, s.stage = .finished status → s.rts.exiting = false →
    s.rts.nerrors = 0 → 0 < options.npackets ∧ options.npackets ≤ s.rts.nreceived ∧ status = false

/-- What each step keeps of that. -/
structure Kept (options : PingRts) (s : MainState) : Prop where
  npackets : s.rts.npackets = options.npackets
  deadline : s.rts.deadline = options.deadline
  limited : options.npackets ≠ 0 → options.deadline = 0 →
    s.rts.ntransmitted ≤ options.npackets
  left : (s.stage = .left ∨ ∃ status, s.stage = .finished status) → exits s.rts = true
  status : ∀ status, s.stage = .finished status → status = finishStatus s.rts

section Status

variable {ctx : MainContext} {settings : Settings} {options : PingRts} {s t : MainState}
variable {e : MainEvent}

theorem Kept.start (options : PingRts) : Kept options (mainStart options) where
  npackets := rfl
  deadline := rfl
  limited _ _ := Nat.zero_le _
  left h := by
    cases hexits : exits options.start with
    | true => exact hexits
    | false =>
        have hstage : (mainStart options).stage = .sending := if_neg (by
          change ¬exits options.start = true
          rw [hexits]
          exact Bool.false_ne_true)
        rw [hstage] at h
        obtain hleft | ⟨status, hfinished⟩ := h
        · cases hleft
        · cases hfinished
  status status h := by
    have hstage : (mainStart options).stage = .left ∨ (mainStart options).stage = .sending := by
      rw [mainStart, MainState.top]
      dsimp only
      split
      · exact .inl rfl
      · exact .inr rfl
    rw [h] at hstage
    obtain hleft | hsending := hstage
    · cases hleft
    · cases hsending

theorem Onward.cases (h : Onward t) : (t.stage = .left ∧ exits t.rts = true) ∨
    t.stage = .sending ∨ ∃ recvError, t.stage = .receiving recvError := by
  obtain htop | hreceiving := h
  · by_cases hexits : exits t.rts = true
    · refine .inl ⟨?_, hexits⟩
      rw [htop, MainState.top, if_pos hexits]
    · refine .inr (.inl ?_)
      rw [htop, MainState.top, if_neg hexits]
  · exact .inr (.inr hreceiving)

theorem Kept.step (h : Kept options s) (step : (mainMachine ctx settings).step s e = some t) :
    Kept options t := by
  cases main_stepped step with
  | signal =>
      exact ⟨h.npackets, h.deadline, h.limited, fun _ => exits_iff.mpr (.inl rfl), h.status⟩
  | send sending passed loop stage =>
      obtain ⟨r, hr, rfl⟩ := Option.map_eq_some_iff.mp passed
      have hrts : t.rts = r.state.rts := congrArg (·.ping.rts) loop
      have hrunning : ∀ outcome, (outcome = .left ∨ ∃ status, outcome = .finished status) →
          t.stage ≠ outcome := by
        rintro outcome hended rfl
        obtain hstage | hstage | hstage := stage <;> rw [hstage] at hended <;>
          obtain hleft | ⟨status, hfinished⟩ := hended
        all_goals contradiction
      refine ⟨?_, ?_, ?_, ?_, ?_⟩
      · rw [hrts]
        exact (pinger_field (·.npackets) {} hr).trans h.npackets
      · rw [hrts]
        exact (pinger_field (·.deadline) {} hr).trans h.deadline
      · intro hlimit hdeadline
        rw [hrts]
        exact pinger_limit hr hlimit h.npackets (h.deadline.trans hdeadline)
          (h.limited hlimit hdeadline)
      · intro hended
        exact absurd rfl (hrunning _ hended)
      · intro status hfinished
        exact absurd hfinished (hrunning _ (.inr ⟨status, rfl⟩))
  | received waiting absorbed onward =>
      have hsent := absorbed.field (·.ntransmitted) {} (fun _ => rfl) fun _ => rfl
      refine ⟨?_, ?_, ?_, ?_, ?_⟩
      · exact (absorbed.field (·.npackets) {} (fun _ => rfl) fun _ => rfl).trans h.npackets
      · exact (absorbed.field (·.deadline) {} (fun _ => rfl) fun _ => rfl).trans h.deadline
      · intro hlimit hdeadline
        exact hsent.trans_le (h.limited hlimit hdeadline)
      · intro hended
        obtain ⟨-, hexits⟩ | hstage | ⟨recvError, hstage⟩ := onward.cases
        · exact hexits
        all_goals
          rw [hstage] at hended
          obtain hleft | ⟨status, hfinished⟩ := hended
          all_goals contradiction
      · intro status hfinished
        obtain ⟨hstage, -⟩ | hstage | ⟨recvError, hstage⟩ := onward.cases <;>
          rw [hstage] at hfinished <;> cases hfinished
  | finish left =>
      refine ⟨h.npackets, h.deadline, h.limited, fun _ => h.left (.inl left), ?_⟩
      rintro status hfinished
      cases hfinished
      rfl

theorem Kept.sound (h : Kept options s) : Sound options s := by
  have hreason : (s.stage = .left ∨ ∃ status, s.stage = .finished status) →
      s.rts.exiting = true ∨
        (options.npackets ≠ 0 ∧ options.npackets ≤ s.rts.nreceived + s.rts.nerrors) ∨
          (options.deadline ≠ 0 ∧ s.rts.nerrors ≠ 0) := by
    intro hended
    have hexits := exits_iff.mp (h.left hended)
    rwa [h.npackets, h.deadline] at hexits
  have hstatus : ∀ status, s.stage = .finished status → (status = false ↔
      0 < s.rts.nreceived ∧ (options.deadline = 0 ∨ options.npackets ≤ s.rts.nreceived)) := by
    intro status hfinished
    rw [h.status status hfinished, finishStatus, h.deadline, h.npackets, Bool.or_eq_false_iff,
      Bool.and_eq_false_iff, decide_eq_false_iff_not, decide_eq_false_iff_not,
      decide_eq_false_iff_not, Nat.not_lt, Decidable.not_not, Nat.pos_iff_ne_zero]
  refine ⟨h.limited, hreason, hstatus, ?_⟩
  intro status hfinished hsignal herrors
  obtain hexiting | ⟨hlimit, hcount⟩ | ⟨-, herror⟩ := hreason (.inr ⟨status, hfinished⟩)
  · exact absurd (hsignal.symm.trans hexiting) Bool.false_ne_true
  · have hreceived : options.npackets ≤ s.rts.nreceived := by omega
    exact ⟨by omega, hreceived, (hstatus status hfinished).mpr ⟨by omega, .inr hreceived⟩⟩
  · exact absurd herrors herror

end Status

/-- Whatever is sent, comes back or fails, in any order: the run keeps to the number of probes it
was given, ends for one of the three reasons, and its exit status is about what has come back. -/
theorem main_loop_sound (ctx : MainContext) (settings : Settings) (options : PingRts)
    (es : List MainEvent) :
    (mainMachine ctx settings).Always (Sound options) (mainStart options) es := by
  have hkept : (mainMachine ctx settings).Always (Kept options) (mainStart options) es :=
    Machine.Always.of_invariant (G := fun _ _ => True) (Kept.start options)
      (fun _ _ _ h _ hstep => h.step hstep) (Machine.guarded_of_forall fun _ _ => trivial)
  exact hkept.mono fun _ => Kept.sound

end Coping.MainLoop
