import Mathlib.Order.Interval.Finset.Nat
import Coping.Ping.SendLoop

/-!
# The test of the count

With `-c` the loop ends when as many replies and errors are counted as probes were asked for.
These are all transmitted by then if every message that is counted is about a transmitted probe
and no two of them are about the same one. A send that fails with `EMSGSIZE` is counted when it
fails, and once more when its error is found in the error queue.
-/

namespace Coping.CountTest

open Finset

/-- What the loop adds up for its test. -/
def counted (rts : PingRts) : Nat := rts.nreceived + rts.nerrors

/-- The test of `main_loop` that ends it. -/
def CountReached (rts : PingRts) : Prop := rts.npackets ≠ 0 ∧ counted rts ≥ rts.npackets

/-- An event, and the probe that its message is about. -/
structure Event where
  event : LoopEvent
  probe : Nat := 0

section Counts

variable (family : Family) (sock : SockType) (rts : PingRts)

/-- The origin of the errors that the network reports. -/
def networkOrigin : UInt8 :=
  match family with
  | .inet => SO_EE_ORIGIN_ICMP
  | .inet6 => SO_EE_ORIGIN_ICMP6

/-- The message quotes no probe of this program. -/
def Foreign (m : QueuedError) : Prop :=
  match family with
  | .inet =>
      m.res < 8 ∨ m.target ≠ rts.whereto ∨ m.type ≠ ICMP_ECHO ∨ ¬isOurs rts sock m.id
  | .inet6 =>
      m.res < 8 ∨ m.target6 ≠ rts.whereto6 ∨ m.type ≠ ICMP6_ECHO_REQUEST ∨
        ¬isOurs rts sock m.id

instance (m : QueuedError) : Decidable (Foreign family sock rts m) :=
  match family with
  | .inet => inferInstanceAs (Decidable (_ ∨ _ ∨ _ ∨ _))
  | .inet6 => inferInstanceAs (Decidable (_ ∨ _ ∨ _ ∨ _))

/-- An error of the network about a probe of this program. -/
def quotes (m : QueuedError) (e : SockExtendedErr) : Bool :=
  e.eeOrigin = networkOrigin family && !decide (Foreign family sock rts m)

/-- A message of the error queue that is counted. Local errors are not in quiet mode. -/
def reported : ErrorQueue → Bool
  | .failed _ => false
  | .message m =>
      m.ee.any fun e =>
        if e.eeOrigin = SO_EE_ORIGIN_LOCAL then !rts.optQuiet else quotes family sock rts m e

/-- A send that fails and is counted: at once, or by its message in the error queue. -/
def refused (a : Attempt) : Bool :=
  a.ret < 0 && !(a.errno = ENOBUFS || a.errno = ENOMEM || a.errno = EAGAIN) &&
    (a.errno = EMSGSIZE || reported family sock rts a.queue)

/-- The event has a message that is counted. -/
def Counts : LoopEvent → Prop
  | .call c => ∃ a ∈ c.attempts, refused family sock rts a = true
  | .reply r => r.csfailed = false ∧ marked rts r.seq = false
  | .error _ queue => reported family sock rts queue = true

end Counts

/-! ## What is counted -/

section Spec

variable {family : Family} {sock : SockType} {rts rts' : PingRts} {errno : Int}
variable {queue : ErrorQueue} {a : Attempt}

theorem untouched_reported : Untouched fun rts => reported family sock rts queue where

theorem untouched_refused : Untouched fun rts => refused family sock rts a where

theorem localError_counted (rts : PingRts) (errno : Int) (e : SockExtendedErr) (tooLong : Output) :
    counted (localError rts errno e tooLong).rts = counted rts + (!rts.optQuiet).toNat ∧
      (localError rts errno e tooLong).result = -1 ∧
      (localError rts errno e tooLong).errno = errno := by
  rw [localError]
  cases hquiet : rts.optQuiet with
  | true => exact ⟨rfl, rfl, rfl⟩
  | false => exact ⟨rfl, rfl, rfl⟩

/-- What is not from the own host is counted if it quotes a probe. -/
theorem network_counted {m : QueuedError} {e : SockExtendedErr} {r : ErrorResult}
    (hee : m.ee = some e) (foreign : e.eeOrigin ≠ SO_EE_ORIGIN_LOCAL)
    (h : family.receiveErrorMsg rts sock errno (.message m) = some r) :
    counted r.rts = counted rts + (quotes family sock rts m e).toNat ∧
      (quotes family sock rts m e = true → r.result ≠ 0 ∧ r.errno = errno) := by
  have hcases : ¬(e.eeOrigin = networkOrigin family ∧ ¬Foreign family sock rts m) ∧ r.rts = rts ∨
      (e.eeOrigin = networkOrigin family ∧ ¬Foreign family sock rts m) ∧
        counted r.rts = counted rts + 1 ∧ r.result = 1 ∧ r.errno = errno := by
    cases family <;>
      simp only [Family.receiveErrorMsg, ping4ReceiveErrorMsg, ping6ReceiveErrorMsg, hee,
        if_neg foreign] at h
    all_goals
      split at h
      · split at h
        next horigin hforeign =>
          cases h
          exact .inl ⟨fun hquotes => hquotes.2 hforeign, rfl⟩
        next horigin hours =>
          first
          | (cases h
             exact .inr ⟨⟨horigin, hours⟩, rfl, rfl, rfl⟩)
          | (split at h
             · cases h
             · cases h
               exact .inr ⟨⟨horigin, hours⟩, rfl, rfl, rfl⟩)
      next hother =>
        cases h
        exact .inl ⟨fun hquotes => hother hquotes.1, rfl⟩
  have hquotes : quotes family sock rts m e =
      decide (e.eeOrigin = networkOrigin family ∧ ¬Foreign family sock rts m) := by
    rw [quotes, Bool.decide_and, decide_not]
  rw [hquotes]
  obtain ⟨hnone, hr⟩ | ⟨hsome, hcounted, hresult, herrno⟩ := hcases
  · rw [decide_eq_false hnone, hr]
    exact ⟨rfl, fun hquotes => absurd hquotes Bool.false_ne_true⟩
  · rw [decide_eq_true hsome]
    refine ⟨hcounted, fun _ => ⟨?_, herrno⟩⟩
    rw [hresult]
    decide

/-- A message of the queue adds one if it is counted, and is an error then. -/
theorem receive_counted {r : ErrorResult}
    (h : family.receiveErrorMsg rts sock errno queue = some r) :
    counted r.rts = counted rts + (reported family sock rts queue).toNat ∧
      (reported family sock rts queue = true → r.result ≠ 0 ∧ r.errno = errno) := by
  cases queue with
  | failed queueErrno =>
      have hr : queueFailed rts errno queueErrno = r := by
        cases family <;> exact Option.some.inj h
      rw [← hr]
      exact ⟨rfl, fun hreported => absurd hreported Bool.false_ne_true⟩
  | message m =>
      cases hee : m.ee with
      | none =>
          have hnone : family.receiveErrorMsg rts sock errno (.message m) = none := by
            cases family <;>
              simp only [Family.receiveErrorMsg, ping4ReceiveErrorMsg, ping6ReceiveErrorMsg, hee]
          cases hnone.symm.trans h
      | some e =>
          have hreported : reported family sock rts (.message m) =
              if e.eeOrigin = SO_EE_ORIGIN_LOCAL then !rts.optQuiet
              else quotes family sock rts m e := by
            rw [reported, hee, Option.any_some]
          rw [hreported]
          by_cases hlocal : e.eeOrigin = SO_EE_ORIGIN_LOCAL
          · obtain ⟨tooLong, hr⟩ : ∃ tooLong, localError rts errno e tooLong = r := by
              cases family <;>
                simp only [Family.receiveErrorMsg, ping4ReceiveErrorMsg, ping6ReceiveErrorMsg, hee,
                  if_pos hlocal, Option.some.injEq] at h
              · exact ⟨_, h⟩
              · exact ⟨_, h⟩
            obtain ⟨hcounted, hresult, herrno⟩ := localError_counted rts errno e tooLong
            rw [if_pos hlocal, ← hr]
            refine ⟨hcounted, fun _ => ⟨?_, herrno⟩⟩
            rw [hresult]
            decide
          · rw [if_neg hlocal]
            exact network_counted hee hlocal h

theorem queueFull_counted (s : PingState) : counted (queueFull s).rts = counted s.rts :=
  queueFull_field counted (fun _ => rfl) (fun _ => rfl) s

/-- The kernel's refusal is counted where it is about the size, or reported. -/
theorem refused_eq {a : Attempt} (h : a.Refused) :
    refused family sock rts a =
      (decide (a.errno = EMSGSIZE) || reported family sock rts a.queue) := by
  obtain ⟨hnobufs, hnomem⟩ := not_or.mp h.memory
  rw [refused, decide_eq_true h.failed, decide_eq_false hnobufs, decide_eq_false hnomem,
    decide_eq_false h.room]
  rfl

/-- What leads to sending again was not counted: it was no error, or not one of this program. -/
theorem receive_cleared {e : ErrorResult} (explained : errno ≠ 0)
    (received : family.receiveErrorMsg rts sock errno queue = some e)
    (cleared : confirmUnsupported e = true ∨ e.errno = 0) :
    reported family sock rts queue = false := by
  by_contra hreported
  obtain ⟨hresult, herrno⟩ := (receive_counted received).2 (by simpa using hreported)
  obtain hunsupported | hzero := cleared
  · simp only [confirmUnsupported, Bool.and_eq_true, decide_eq_true_eq] at hunsupported
    exact hresult hunsupported.1.1
  · exact explained (herrno.symm.trans hzero)

/-- However often it is tried, at most the last attempt of a probe is counted, and the probe is
taken as transmitted then. -/
theorem resend_counted {attempts : List Attempt} {s : PingState} {r : Pinged}
    (h : resend family sock s attempts = some r)
    (failing : ∀ a ∈ attempts, a.ret < 0 → a.errno ≠ 0) :
    counted r.state.rts = counted s.rts ∨
      counted r.state.rts = counted s.rts + 1 ∧ r.ending = .hardError ∧
        ∃ a ∈ attempts, refused family sock s.rts a = true := by
  induction attempts generalizing s r with
  | nil => cases h
  | cons a rest ih =>
      have hsend := Attempted.sendProbe family s.rts a.now
      have hsent : counted (family.sendProbe s.rts a.now).1 = counted s.rts :=
        family.sendProbe_field counted (fun _ _ => rfl) (fun _ _ => rfl) (fun _ _ _ => rfl) s.rts
          a.now
      have hsame : reported family sock (family.sendProbe s.rts a.now).1 a.queue =
          reported family sock s.rts a.queue :=
        hsend.field (reported family sock · a.queue) untouched_reported
      -- what a message of the queue adds is what makes it a refusal
      have hone : ∀ {e : ErrorResult}, a.Refused →
          family.receiveErrorMsg (family.sendProbe s.rts a.now).1 sock a.errno a.queue = some e →
          counted e.rts = counted s.rts ∨ counted e.rts = counted s.rts + 1 ∧
            ∃ b ∈ a :: rest, refused family sock s.rts b = true := by
        intro e hrefused received
        have hcounted := (receive_counted received).1
        rw [hsent, hsame] at hcounted
        cases hcase : reported family sock s.rts a.queue with
        | false =>
            rw [hcase] at hcounted
            exact .inl hcounted
        | true =>
            rw [hcase] at hcounted
            refine .inr ⟨hcounted, a, List.mem_cons_self, ?_⟩
            rw [refused_eq hrefused, hcase, Bool.or_true]
      obtain ⟨hproper, hrest⟩ := List.forall_mem_cons.mp failing
      cases resend_step h with
      | sent => exact .inl hsent
      | noBuffers => exact .inl ((queueFull_counted _).trans hsent)
      | lingered => exact .inl ((queueFull_counted _).trans hsent)
      | again => exact .inl hsent
      | tooLong hrefused errno =>
          refine .inr ⟨congrArg (· + 1) hsent, rfl, a, List.mem_cons_self, ?_⟩
          rw [refused_eq hrefused, decide_eq_true errno, Bool.true_or]
      | reported hrefused received =>
          exact (hone hrefused received).imp_right fun hmore => ⟨hmore.1, rfl, hmore.2⟩
      | resent hrefused received _ cleared next =>
          have hnone := receive_cleared (hproper hrefused.failed) received cleared
          have hcounted := (receive_counted received).1
          rw [hsent, hnone] at hcounted
          have hlast := ih next hrest
          rw [(unconfirmed_field counted (fun _ => rfl) _).trans hcounted] at hlast
          obtain hkept | ⟨hmore, hending, b, hmem, hb⟩ := hlast
          · exact .inl hkept
          · refine .inr ⟨hmore, hending, b, List.mem_cons_of_mem a hmem, ?_⟩
            exact ((hsend.receive received).unconfirmed.field (refused family sock · b)
              untouched_refused).symm.trans hb
      | failed hrefused received =>
          have hlast := hone hrefused received
          rw [← unconfirmed_field counted (fun _ => rfl)] at hlast
          exact hlast.imp_right fun hmore => ⟨hmore.1, rfl, hmore.2⟩

/-- A call takes one probe as transmitted where it counts one. -/
theorem pinger_counted {s : PingState} {c : PingerCall} {r : Pinged}
    (h : pinger family sock s c = some r)
    (failing : ∀ a ∈ c.attempts, a.ret < 0 → a.errno ≠ 0) :
    counted r.state.rts = counted s.rts ∨
      counted r.state.rts = counted s.rts + 1 ∧ r.ending = .hardError ∧
        ∃ a ∈ c.attempts, refused family sock s.rts a = true := by
  simp only [pinger] at h
  split at h
  · cases h
    exact .inl rfl
  split at h
  · cases h
    exact .inl rfl
  · obtain ⟨ended, hended, rfl⟩ := Option.map_eq_some_iff.mp h
    have hcounted := resend_counted hended failing
    exact hcounted

/-- A call leaves the number of probes within the limit. -/
theorem pinger_limit {s : PingState} {c : PingerCall} {r : Pinged} {limit : Nat}
    (h : pinger family sock s c = some r) (limited : limit ≠ 0) (npackets : s.rts.npackets = limit)
    (noDeadline : s.rts.deadline = 0) (within : s.rts.ntransmitted ≤ limit) :
    r.state.rts.ntransmitted ≤ limit := by
  subst npackets
  by_cases hall : s.rts.ntransmitted ≥ s.rts.npackets
  · rw [pinger_allSent ⟨limited, hall, noDeadline⟩] at h
    cases h
    exact within
  · obtain ⟨-, hsent, -⟩ := pinger_counters h
    have hone := Bool.toNat_le r.ending.advances
    omega

end Spec

/-! ## Runs -/

instance (family : Family) (sock : SockType) (rts : PingRts) :
    DecidablePred (Counts family sock rts)
  | .call c => inferInstanceAs (Decidable (∃ a ∈ c.attempts, _))
  | .reply _ => inferInstanceAs (Decidable (_ ∧ _))
  | .error _ _ => inferInstanceAs (Decidable (_ = true))

structure Session where
  loop : LoopState
  /-- The probes that a counted message was about. -/
  settled : Finset Nat := ∅

def Session.rts (s : Session) : PingRts := s.loop.ping.rts

def start (options : PingRts) : Session where
  loop := { ping := { rts := options.start } }

def step (family : Family) (sock : SockType) (s : Session) (e : Event) : Option Session :=
  ((mainLoop family sock).step s.loop e.event).map fun loop =>
    { loop := loop
      settled :=
        if Counts family sock s.rts e.event ∧ e.probe ≤ loop.ping.rts.ntransmitted then
          insert e.probe s.settled
        else s.settled }

def machine (family : Family) (sock : SockType) : Machine Session Event where
  step := step family sock

/-- The last probe that a message of the event can be about. -/
def lastProbe (s : Session) : LoopEvent → Nat
  | .call _ => s.rts.ntransmitted + 1
  | _ => s.rts.ntransmitted

/-- A send that fails says why. -/
def Explained : LoopEvent → Prop
  | .call c => ∀ a ∈ c.attempts, a.ret < 0 → a.errno ≠ 0
  | _ => True

/-- A message that is counted is about a probe that is transmitted, in a call about the one of
the call at the latest. -/
structure Belongs (family : Family) (sock : SockType) (s : Session) (e : Event) : Prop where
  explained : Explained e.event
  probe : Counts family sock s.rts e.event → e.probe ∈ Icc 1 (lastProbe s e.event)

/-- No other counted message was about its probe. -/
def Single (family : Family) (sock : SockType) (s : Session) (e : Event) : Prop :=
  Counts family sock s.rts e.event → e.probe ∉ s.settled

/-- Every counted message has a probe of its own, and no more probes than the limit are
transmitted. -/
structure Kept (limit : Nat) (s : Session) : Prop where
  npackets : s.rts.npackets = limit
  deadline : s.rts.deadline = 0
  within : s.rts.ntransmitted ≤ limit
  settled : s.settled ⊆ Icc 1 s.rts.ntransmitted
  counted : counted s.rts ≤ s.settled.card

theorem Kept.start {options : PingRts} (noDeadline : options.deadline = 0) :
    Kept options.npackets (start options) where
  npackets := rfl
  deadline := noDeadline
  within := Nat.zero_le _
  settled := Finset.empty_subset _
  counted := Nat.zero_le _

theorem Kept.counted_le {limit : Nat} {s : Session} (h : Kept limit s) :
    CountTest.counted s.rts ≤ s.rts.ntransmitted := by
  calc CountTest.counted s.rts ≤ s.settled.card := h.counted
    _ ≤ (Icc 1 s.rts.ntransmitted).card := card_le_card h.settled
    _ = s.rts.ntransmitted := by rw [Nat.card_Icc, Nat.add_sub_cancel]

section Step

variable {family : Family} {sock : SockType} {limit : Nat} {s t : Session} {e : Event}

/-- The ledger behind an event, from what this does to the counters. -/
theorem Kept.next (h : Kept limit s) (belongs : Belongs family sock s e)
    (single : Single family sock s e) {loop : LoopState}
    (npackets : loop.ping.rts.npackets = s.rts.npackets)
    (deadline : loop.ping.rts.deadline = s.rts.deadline)
    (more : s.rts.ntransmitted ≤ loop.ping.rts.ntransmitted)
    (within : loop.ping.rts.ntransmitted ≤ limit)
    (counts : CountTest.counted loop.ping.rts = CountTest.counted s.rts ∨
      CountTest.counted loop.ping.rts = CountTest.counted s.rts + 1 ∧
        Counts family sock s.rts e.event ∧
          lastProbe s e.event ≤ loop.ping.rts.ntransmitted) :
    Kept limit
      { loop := loop
        settled :=
          if Counts family sock s.rts e.event ∧ e.probe ≤ loop.ping.rts.ntransmitted then
            insert e.probe s.settled
          else s.settled } where
  npackets := npackets.trans h.npackets
  deadline := deadline.trans h.deadline
  within := within
  settled := by
    have hkept : s.settled ⊆ Icc 1 loop.ping.rts.ntransmitted :=
      h.settled.trans (Icc_subset_Icc_right more)
    dsimp only
    split
    next hcounts =>
      have hpositive := (mem_Icc.mp (belongs.probe hcounts.1)).1
      exact insert_subset (mem_Icc.mpr ⟨hpositive, hcounts.2⟩) hkept
    · exact hkept
  counted := by
    dsimp only
    obtain hsame | ⟨hone, hcounts, hlast⟩ := counts
    · refine (Nat.le_of_eq hsame).trans (h.counted.trans (card_le_card ?_))
      split
      · exact subset_insert e.probe s.settled
      · exact Subset.rfl
    · have hprobe := (mem_Icc.mp (belongs.probe hcounts)).2.trans hlast
      rw [if_pos ⟨hcounts, hprobe⟩, card_insert_of_notMem (single hcounts)]
      exact (Nat.le_of_eq hone).trans (Nat.succ_le_succ h.counted)

theorem Kept.step (h : Kept limit s) (limited : limit ≠ 0)
    (belongs : Belongs family sock s e) (single : Single family sock s e)
    (hstep : (machine family sock).step s e = some t) : Kept limit t := by
  obtain ⟨loop, hloop, rfl⟩ := Option.map_eq_some_iff.mp hstep
  obtain ⟨event, probe⟩ := e
  cases event with
  | call c =>
      obtain ⟨pass, hpass, rfl⟩ := Option.map_eq_some_iff.mp hloop
      obtain ⟨r, hr, rfl⟩ := Option.map_eq_some_iff.mp hpass
      have hsent : r.state.rts.ntransmitted = s.rts.ntransmitted + r.ending.advances.toNat :=
        (pinger_counters hr).2.1
      have hnpackets : r.state.rts.npackets = s.rts.npackets := pinger_field (·.npackets) {} hr
      have hdeadline : r.state.rts.deadline = s.rts.deadline := pinger_field (·.deadline) {} hr
      have hlimit := pinger_limit hr limited h.npackets h.deadline h.within
      have hmore : s.rts.ntransmitted ≤ r.state.rts.ntransmitted := by
        rw [hsent]
        exact Nat.le_add_right _ _
      apply h.next belongs single
      case npackets => exact hnpackets
      case deadline => exact hdeadline
      case more => exact hmore
      case within => exact hlimit
      case counts =>
        refine (pinger_counted hr belongs.explained).imp_right ?_
        rintro ⟨hone, hending, hcounts⟩
        refine ⟨hone, hcounts, ?_⟩
        change s.rts.ntransmitted + 1 ≤ r.state.rts.ntransmitted
        rw [hsent, hending]
        exact Nat.le_refl _
  | reply r =>
      cases hloop
      have hsent : (gatherStatistics s.rts r).ntransmitted = s.rts.ntransmitted :=
        gatherStatistics_ntransmitted s.rts r
      have hreceived := gatherStatistics_nreceived s.rts r
      have hnerrors : (gatherStatistics s.rts r).nerrors = s.rts.nerrors :=
        gatherStatistics_field (·.nerrors) {} s.rts r fun _ _ => rfl
      apply h.next belongs single
      case npackets => exact gatherStatistics_field (·.npackets) {} s.rts r fun _ _ => rfl
      case deadline => exact gatherStatistics_field (·.deadline) {} s.rts r fun _ _ => rfl
      case more => exact Nat.le_of_eq hsent.symm
      case within => exact hsent.trans_le h.within
      case counts =>
        change CountTest.counted (gatherStatistics s.rts r) = _ ∨
          CountTest.counted (gatherStatistics s.rts r) = _ ∧ _
        rw [CountTest.counted, hreceived, hnerrors]
        cases hnew : !r.csfailed && !marked s.rts r.seq with
        | false => exact .inl rfl
        | true =>
            have hgood : r.csfailed = false ∧ marked s.rts r.seq = false := by simpa using hnew
            refine .inr ⟨?_, hgood, Nat.le_of_eq hsent.symm⟩
            exact Nat.add_right_comm s.rts.nreceived 1 s.rts.nerrors
  | error errno queue =>
      obtain ⟨r, hr, rfl⟩ := Option.map_eq_some_iff.mp hloop
      have hsent : r.rts.ntransmitted = s.rts.ntransmitted :=
        Family.receiveErrorMsg_field (·.ntransmitted) (fun _ _ => rfl) (fun _ => rfl) hr
      apply h.next belongs single
      case npackets =>
        exact Family.receiveErrorMsg_field (·.npackets) (fun _ _ => rfl) (fun _ => rfl) hr
      case deadline =>
        exact Family.receiveErrorMsg_field (·.deadline) (fun _ _ => rfl) (fun _ => rfl) hr
      case more => exact Nat.le_of_eq hsent.symm
      case within => exact hsent.trans_le h.within
      case counts =>
        have hcounted : CountTest.counted r.rts = CountTest.counted s.rts + _ :=
          (receive_counted hr).1
        change CountTest.counted r.rts = CountTest.counted s.rts ∨
          CountTest.counted r.rts = CountTest.counted s.rts + 1 ∧ _
        cases hreported : reported family sock s.loop.ping.rts queue with
        | false =>
            rw [hreported] at hcounted
            exact .inl hcounted
        | true =>
            rw [hreported] at hcounted
            exact .inr ⟨hcounted, hreported, Nat.le_of_eq hsent.symm⟩

end Step

/-- No run transmits more probes than `-c` asks for, and one in which no two counted messages are
about the same probe ends with all of them. -/
theorem count_reached (family : Family) (sock : SockType) (options : PingRts) (es : List Event)
    (limited : options.npackets ≠ 0) (noDeadline : options.deadline = 0)
    (belongs : (machine family sock).Guarded (Belongs family sock) (start options) es)
    (single : (machine family sock).Guarded (Single family sock) (start options) es) :
    (machine family sock).Always
      (fun s => s.rts.ntransmitted ≤ options.npackets ∧
        (CountReached s.rts → s.rts.ntransmitted = options.npackets))
      (start options) es := by
  have hkept : (machine family sock).Always (Kept options.npackets) (start options) es :=
    .of_invariant (.start noDeadline)
      (fun _ _ _ h guards hstep => h.step limited guards.1 guards.2 hstep)
      (belongs.and single)
  refine hkept.mono fun s h => ⟨h.within, ?_⟩
  rintro ⟨-, hreached⟩
  rw [h.npackets] at hreached
  exact Nat.le_antisymm h.within (hreached.trans h.counted_le)

/-- A send that is too long for the network. -/
def tooLong : Event where
  event := .call { clock := { tvSec := 1 }, attempts := [{ ret := -1, errno := EMSGSIZE }] }
  probe := 1

/-- Its message in the error queue. -/
def tooLongReported : Event where
  event := .error EAGAIN
    (.message
      { type := ICMP_ECHO
        id := 0
        sequence := 1
        ee := some { eeErrno := EMSGSIZE, eeOrigin := SO_EE_ORIGIN_LOCAL, eeInfo := 1500 } })
  probe := 1

theorem belongs_tooLong {s : Session} (first : s.rts.ntransmitted = 0) :
    Belongs .inet .dgram s tooLong where
  explained a mem _ := by
    rw [List.mem_singleton.mp mem]
    decide
  probe _ := by
    change 1 ∈ Icc 1 (s.rts.ntransmitted + 1)
    rw [first]
    decide

theorem count_reached_one :
    (machine .inet .dgram).Always
      (fun s => s.rts.ntransmitted ≤ 1 ∧ (CountReached s.rts → s.rts.ntransmitted = 1))
      (start { npackets := 1 }) [tooLong] :=
  count_reached .inet .dgram { npackets := 1 } [tooLong] Nat.one_ne_zero rfl
    ⟨belongs_tooLong rfl, fun _ _ => trivial⟩
    ⟨fun _ => Finset.notMem_empty 1, fun _ _ => trivial⟩

theorem step_call {family : Family} {sock : SockType} {s : Session} {c : PingerCall} {r : Pinged}
    (probe : Nat) (h : pinger family sock s.loop.ping c = some r) :
    ∃ t, (machine family sock).step s { event := .call c, probe := probe } = some t ∧
      t.rts = r.state.rts := by
  change ∃ t, step family sock s { event := .call c, probe := probe } = some t ∧ _
  rw [step]
  change ∃ t, Option.map _ (Option.map _ (sendPass family sock s.loop c)) = some t ∧ _
  rw [sendPass, h]
  exact ⟨_, rfl, rfl⟩

/-- The call is left with its probe taken as transmitted, and counted. -/
theorem step_tooLong :
    ∃ s, (machine .inet .dgram).step (start { npackets := 2 }) tooLong = some s ∧
      s.rts.ntransmitted = 1 ∧ counted s.rts = 1 ∧ s.rts.npackets = 2 ∧
        s.rts.optQuiet = false := by
  have hfailed : ∀ n : Nat, ¬((-1 : Int) = 0 ∨ (-1 : Int) = n) := by omega
  obtain ⟨r, hr, hrts⟩ : ∃ r, pinger .inet .dgram (start { npackets := 2 }).loop.ping
        { clock := { tvSec := 1 }, attempts := [{ ret := -1, errno := EMSGSIZE }] } = some r ∧
      r.state.rts.ntransmitted = 1 ∧ counted r.state.rts = 1 ∧ r.state.rts.npackets = 2 ∧
        r.state.rts.optQuiet = false := by
    rw [pinger, if_neg (by decide)]
    change ∃ r, Option.map _ (resend _ _ _ [{ ret := -1, errno := EMSGSIZE }]) = some r ∧ _
    rw [resend, if_neg (hfailed _), if_neg (by decide), if_neg (by decide), if_neg (by decide),
      if_pos rfl]
    exact ⟨_, rfl, rfl, rfl, rfl, rfl⟩
  obtain ⟨s, hs, hsame⟩ := step_call 1 hr
  refine ⟨s, hs, ?_⟩
  rwa [hsame]

/-- The first send of two is too long, and is counted twice before the second. -/
theorem count_reached_early :
    (machine .inet .dgram).Guarded (Belongs .inet .dgram) (start { npackets := 2 })
        [tooLong, tooLongReported] ∧
      ¬(machine .inet .dgram).Always
        (fun s => s.rts.ntransmitted ≤ 2 ∧ (CountReached s.rts → s.rts.ntransmitted = 2))
        (start { npackets := 2 }) [tooLong, tooLongReported] := by
  obtain ⟨s, hs, hsent, hcounted, hlimit, hquiet⟩ := step_tooLong
  constructor
  · refine ⟨belongs_tooLong rfl, fun t ht => ?_⟩
    obtain rfl := Option.some.inj (hs.symm.trans ht)
    refine ⟨⟨trivial, fun _ => ?_⟩, fun _ _ => trivial⟩
    change 1 ∈ Icc 1 s.rts.ntransmitted
    rw [hsent]
    decide
  · rintro ⟨-, hbehind⟩
    obtain ⟨-, hlast⟩ := hbehind s hs
    obtain ⟨t, ht, htwo, hone, hnpackets⟩ : ∃ t,
        (machine .inet .dgram).step s tooLongReported = some t ∧ counted t.rts = 2 ∧
          t.rts.ntransmitted = 1 ∧ t.rts.npackets = 2 := by
      refine ⟨_, rfl, ?_⟩
      change counted (localError s.rts EAGAIN _ _).rts = 2 ∧
        (localError s.rts EAGAIN _ _).rts.ntransmitted = 1 ∧
        (localError s.rts EAGAIN _ _).rts.npackets = 2
      rw [localError, hquiet, if_neg Bool.false_ne_true]
      exact ⟨congrArg (· + 1) hcounted, hsent, hlimit⟩
    have hfails := (hlast t ht).2 ⟨by rw [hnpackets]; decide, by rw [htwo, hnpackets]⟩
    rw [hone] at hfails
    exact absurd hfails (by decide)

end Coping.CountTest
