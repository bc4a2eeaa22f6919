import Coping.Ping.SendLoop
import Coping.Verification.Rate

/-!
# The end of the send loop

The loop around `pinger` goes on while there is nothing to wait for. Each of its passes
sends a probe then, and pays for it: with a token of the bucket, or in unlimited flood
with a probe more in flight. `Quick` calls come faster than the bucket fills, so that
the passes are limited: `sendLoop_ends`.

In unlimited flood the probes in flight are counted in 16 bits, with the counters of the
statistics as a fallback. The count reaches any preload, though not on the shortest way.
-/

namespace Coping.SendLoop

open CInt

/-! ## How a call settles -/

/-- A field that sending the same probe again leaves alone. -/
structure Resent {α : Type} (field : PingRts → α) : Prop where
  cleared : ∀ rts seq, field (rcvdClear rts seq) = field rts := by intros; rfl
  sent : ∀ (rts : PingRts) packet, field { rts with outpack := packet } = field rts := by
    intros; rfl
  sent6 : ∀ (rts : PingRts) packet datalen,
    field { rts with outpack := packet, datalen := datalen, confirm := 0 } = field rts := by
    intros; rfl
  forgotten : ∀ rts, field (forgetConfirm rts) = field rts := by intros; rfl

/-- A call of `sendto` that fails says why. -/
def Explained (attempts : List Attempt) : Prop := ∀ a ∈ attempts, a.ret < 0 → a.errno ≠ 0

/-- What a call that sends settles, from the state in which it has found a token. -/
structure Settled (s : PingState) (attempts : List Attempt) (r : Pinged) : Prop where
  wait : 0 < r.wait ∨ r.ending = .sent ∧ r.wait = toInt32 (s.rts.interval - s.tokens)
  sent : r.ending = .sent → Explained attempts → ∃ rts, r.state = probeSent { s with rts := rts } ∧
    ∀ {α : Type} (field : PingRts → α), Resent field → field rts = field s.rts
  addend : r.state.rts.rttAddend = s.rts.rttAddend ∨ (∃ a ∈ attempts, a.overflows) ∧
    r.state.rts.rttAddend = slowedAddend s.rts.rtt s.rts.rttAddend

theorem schint_pos (a : Int) : 0 < schint a := by
  rw [schint, MIN_INTERVAL_MS]
  split <;> omega

theorem noresInterval_pos (rts : PingRts) : 0 < noresInterval rts := by
  have := schint_pos (rts.interval.tdiv 2)
  rw [noresInterval]
  omega

/-- A local error is neither of the two reasons to send again. -/
theorem localError_final {rts : PingRts} {errno : Int} {e : SockExtendedErr} {tooLong : Output}
    (explained : errno ≠ 0) :
    ¬ (confirmUnsupported (localError rts errno e tooLong) = true ∨
      (localError rts errno e tooLong).errno = 0) := by
  rw [localError]
  split
  · simpa [confirmUnsupported] using explained
  · simpa [confirmUnsupported] using explained

/-- What leads to sending again was no message about a probe. -/
theorem receiveErrorMsg_resent {family : Family} {rts : PingRts} {sock : SockType} {errno : Int}
    {queue : ErrorQueue} {r : ErrorResult} (explained : errno ≠ 0) (fruitless : ¬ r.result > 0)
    (again : confirmUnsupported r = true ∨ r.errno = 0)
    (h : family.receiveErrorMsg rts sock errno queue = some r) : r.rts = rts := by
  cases Family.receivedError h with
  | failed queueErrno => rfl
  | own carried origin tooLong => exact absurd again (localError_final explained)
  | other kept => rfl
  | network carried acknowledged => exact absurd (show (1 : Int) > 0 by decide) fruitless

/-- A hard error has the next interval to wait for. -/
theorem settled_of_hardError {s : PingState} {attempts : List Attempt} {r : Pinged}
    (ending : r.ending = .hardError) (wait : 0 < r.wait)
    (addend : r.state.rts.rttAddend = s.rts.rttAddend ∨ (∃ a ∈ attempts, a.overflows) ∧
      r.state.rts.rttAddend = slowedAddend s.rts.rtt s.rts.rttAddend) :
    Settled s attempts r where
  wait := .inl wait
  sent hsent := by
    rw [ending] at hsent
    cases hsent
  addend := addend

/-- What the next attempt settles, the call settles. -/
theorem Settled.again {s : PingState} {rts : PingRts} {a : Attempt} {rest : List Attempt}
    {ended : Pinged} (h : Settled { s with rts := rts } rest ended) (sends : List (List UInt8))
    (output : List Output) (interval : rts.interval = s.rts.interval)
    (rtt : rts.rtt = s.rts.rtt) (rttAddend : rts.rttAddend = s.rts.rttAddend)
    (same : Explained (a :: rest) → ∀ {α : Type} (field : PingRts → α), Resent field →
      field rts = field s.rts) :
    Settled s (a :: rest) { ended with sends := sends, output := output } where
  wait := by
    have hwait := h.wait
    simp only [interval] at hwait
    exact hwait
  sent hsent explained := by
    obtain ⟨last, hstate, hlast⟩ := h.sent hsent fun b hb => explained b (List.mem_cons_of_mem a hb)
    exact ⟨last, hstate, fun field hf => (hlast field hf).trans (same explained field hf)⟩
  addend := by
    have haddend := h.addend
    simp only [rtt, rttAddend] at haddend
    apply haddend.imp_right
    rintro ⟨⟨b, hb, hfull⟩, hslowed⟩
    exact ⟨⟨b, List.mem_cons_of_mem a hb, hfull⟩, hslowed⟩

theorem queueFull_rttAddend (s : PingState) :
    (queueFull s).rts.rttAddend = slowedAddend s.rts.rtt s.rts.rttAddend := by
  rw [queueFull]
  dsimp only
  split <;> rfl

theorem resend_settled {family : Family} {sock : SockType} {s : PingState}
    {attempts : List Attempt} {r : Pinged} (h : resend family sock s attempts = some r) :
    Settled s attempts r := by
  induction attempts generalizing s r with
  | nil => cases h
  | cons a rest ih =>
      have hsend : ∀ {α : Type} (field : PingRts → α), Resent field →
          field (family.sendProbe s.rts a.now).1 = field s.rts := fun field hf =>
        family.sendProbe_field field hf.cleared hf.sent hf.sent6 s.rts a.now
      have hmem : a ∈ a :: rest := List.mem_cons_self
      have haddend := hsend (·.rttAddend) {}
      have hslowed : ((queueFull
          { s with rts := (family.sendProbe s.rts a.now).1 }).rts.rttAddend) =
            slowedAddend s.rts.rtt s.rts.rttAddend := by
        rw [queueFull_rttAddend]
        exact congrArg₂ slowedAddend (hsend (·.rtt) {}) haddend
      have hreceive : ∀ {e : ErrorResult} {α : Type} (field : PingRts → α),
          family.receiveErrorMsg (family.sendProbe s.rts a.now).1 sock a.errno a.queue = some e →
          Untouched field → field e.rts = field s.rts := fun field hreceived hf =>
        (Family.receiveErrorMsg_field field hf.acknowledged hf.counted hreceived).trans
          (hsend field ⟨hf.cleared, hf.sent, hf.sent6, hf.forgotten⟩)
      cases resend_step h with
      | sent =>
          refine ⟨.inr ⟨rfl, ?_⟩, fun _ _ => ⟨_, rfl, hsend⟩, .inl haddend⟩
          exact congrArg (fun interval => toInt32 (interval - s.tokens)) (hsend (·.interval) {})
      | noBuffers overflows =>
          exact {
            wait := .inl (noresInterval_pos _)
            sent := fun hsent => by cases hsent
            addend := .inr ⟨⟨a, hmem, overflows⟩, hslowed⟩ }
      | lingered overflows =>
          exact settled_of_hardError rfl (schint_pos _) (.inr ⟨⟨a, hmem, overflows⟩, hslowed⟩)
      | again =>
          exact {
            wait := .inl (show (0 : Int) < MIN_INTERVAL_MS by decide)
            sent := fun hsent => by cases hsent
            addend := .inl haddend }
      | tooLong => exact settled_of_hardError rfl (schint_pos _) (.inl haddend)
      | reported _ received =>
          exact settled_of_hardError rfl (schint_pos _)
            (.inl (hreceive (·.rttAddend) received {}))
      | resent refused received fruitless cleared next =>
          refine Settled.again (s := s) (ih next) _ _ ?_ ?_ ?_ ?_
          · exact (unconfirmed_field (·.interval) (fun _ => rfl) _).trans
              (hreceive (·.interval) received {})
          · exact (unconfirmed_field (·.rtt) (fun _ => rfl) _).trans (hreceive (·.rtt) received {})
          · exact (unconfirmed_field (·.rttAddend) (fun _ => rfl) _).trans
              (hreceive (·.rttAddend) received {})
          · intro hexplained α field hf
            have hsame := receiveErrorMsg_resent (hexplained a hmem refused.failed) fruitless
              cleared received
            exact (unconfirmed_field field hf.forgotten _).trans ((congrArg field hsame).trans
              (hsend field hf))
      | failed _ received =>
          exact settled_of_hardError rfl (schint_pos _)
            (.inl ((unconfirmed_field (·.rttAddend) (fun _ => rfl) _).trans
              (hreceive (·.rttAddend) received {})))

/-- A call waits without a change, or it has found a token and settles the rest. -/
theorem pinger_settled {family : Family} {sock : SockType} {p : PingState} {c : PingerCall}
    {r : Pinged} (hr : pinger family sock p c = some r) :
    (r.state = p ∧ (r.wait = 1000 ∨ refill p.rts p.tokens c.clock = .wait r.wait)) ∨
      ∃ tokens, refill p.rts p.tokens c.clock = .send tokens ∧
        Settled { p with rts := { p.rts with curTime := c.clock }, tokens := tokens }
          c.attempts r := by
  simp only [pinger] at hr
  split at hr
  · cases hr
    exact .inl ⟨rfl, .inl rfl⟩
  split at hr
  next ms hwait =>
    cases hr
    exact .inl ⟨rfl, .inr hwait⟩
  next tokens htokens =>
    obtain ⟨ended, hended, rfl⟩ := Option.map_eq_some_iff.mp hr
    obtain ⟨hwait, hsent, haddend⟩ := resend_settled hended
    exact .inr ⟨tokens, htokens, ⟨hwait, hsent, haddend⟩⟩


/-! ## The bucket -/

/-- The parameters and the token count of a state that the loop works in. -/
structure Good (p : PingState) : Prop where
  interval : 0 ≤ p.rts.interval ∧ p.rts.interval ≤ intMax
  preload : 1 ≤ p.rts.preload ∧ p.rts.preload ≤ 65536
  tokens : 0 ≤ p.tokens ∧ p.tokens ≤ intMax

/-- The clock runs and goes forward, and what has come into the bucket fits an `int`. -/
structure Timely (p : PingState) (c : PingerCall) : Prop where
  explained : Explained c.attempts
  reading : c.clock ≠ {}
  forward : p.rts.curTime ≠ {} → 0 ≤ Rate.passed p.rts c.clock
  small : p.rts.interval * p.rts.preload ≤ intMax ∨
    p.rts.curTime ≠ {} ∧ Rate.passed p.rts c.clock + p.tokens ≤ intMax

/-- The call comes before an interval has passed, or before 10 ms in unlimited flood; or
the bucket holds a single probe. -/
structure Quick (s : LoopState) (c : PingerCall) : Prop extends Timely s.ping c where
  quick : (0 < s.ping.rts.interval ∧ s.ping.rts.preload = 1) ∨
    Rate.passed s.ping.rts c.clock <
      if s.ping.rts.interval = 0 then MIN_INTERVAL_MS else s.ping.rts.interval

section Refill

variable {p : PingState} {c : PingerCall}

theorem Good.capacity (h : Good p) : p.rts.interval ≤ p.rts.interval * p.rts.preload := by
  have hscaled := Int.mul_le_mul_of_nonneg_left h.preload.1 h.interval.1
  rw [mul_one] at hscaled
  exact hscaled

/-- A call that waits has a time to wait. -/
theorem Good.wait_pos (h : Good p) (timely : Timely p c) {ms : Int}
    (waits : refill p.rts p.tokens c.clock = .wait ms) : 0 < ms := by
  have hmax : intMax = 2147483647 := rfl
  have hmin : MIN_INTERVAL_MS = 10 := rfl
  have hcapacity := h.capacity
  obtain ⟨hinterval, hsmall⟩ := h.interval
  have htokens := h.tokens.1
  by_cases hstarted : p.rts.curTime = {}
  · rw [Rate.refill_first p.tokens c.clock hstarted] at waits
    cases waits
  · have hforward := timely.forward hstarted
    rw [Rate.refill_started p.tokens c.clock hstarted] at waits
    split at waits
    · cases waits
      rw [toInt32_of_range (by omega) (by omega)]
      omega
    split at waits
    · cases waits
      rw [toInt32_of_range (by omega) (by omega)]
      omega
    · cases waits

/-- The token that a call finds leaves the bucket in range. -/
theorem Good.send_bounds (h : Good p) (timely : Timely p c) {tokens : Int}
    (sends : refill p.rts p.tokens c.clock = .send tokens) :
    0 ≤ tokens ∧ tokens + p.rts.interval ≤ intMax ∧
      (p.rts.curTime ≠ {} → tokens + p.rts.interval ≤ Rate.passed p.rts c.clock + p.tokens ∧
        tokens + p.rts.interval ≤ p.rts.interval * p.rts.preload ∧
        (p.rts.interval = 0 → Rate.passed p.rts c.clock < MIN_INTERVAL_MS →
          inFlight p.rts < p.rts.preload)) := by
  have hmax : intMax = 2147483647 := rfl
  have hcapacity := h.capacity
  obtain ⟨hinterval, hsmall⟩ := h.interval
  have hbounded := timely.small
  by_cases hstarted : p.rts.curTime = {}
  · have hfirst : p.rts.interval * p.rts.preload ≤ intMax :=
      hbounded.resolve_right fun hlater => hlater.1 hstarted
    rw [Rate.refill_first p.tokens c.clock hstarted] at sends
    cases sends
    rw [toInt32_of_range (by omega) (by omega)]
    exact ⟨by omega, by omega, fun hset => absurd hstarted hset⟩
  · rw [Rate.refill_started p.tokens c.clock hstarted] at sends
    split at sends
    · cases sends
    next hflood =>
    split at sends
    · cases sends
    next henough =>
      cases sends
      rw [toInt32_of_range (by omega) (by omega)]
      refine ⟨by omega, by omega, fun _ => ⟨by omega, by omega, ?_⟩⟩
      intro hzero hearly
      exact Int.not_le.mp fun hfull => hflood ⟨hzero, hearly, hfull⟩

/-- Whatever the ending of a call, the tokens stay in range. -/
theorem Good.call_tokens {family : Family} {sock : SockType} {r : Pinged} (h : Good p)
    (timely : Timely p c) (hr : pinger family sock p c = some r) :
    0 ≤ r.state.tokens ∧ r.state.tokens ≤ intMax := by
  have hinterval := h.interval.1
  obtain ⟨-, hstate, -⟩ | ⟨tokens, rts, hfound, hattempted, hended, -⟩ := pinger_cases hr
  · rw [hstate]
    exact h.tokens
  obtain ⟨hnonneg, hroom, -⟩ := h.send_bounds timely hfound
  have hsame : rts.interval = p.rts.interval := hattempted.field (·.interval) {}
  cases hending : r.ending with
  | idle =>
      rw [hending] at hended
      cases hended
  | sent =>
      rw [hending] at hended
      rw [hended]
      change 0 ≤ tokens ∧ tokens ≤ intMax
      omega
  | hardError =>
      rw [hending] at hended
      have hzero : r.state.tokens = 0 := by
        obtain hstate | hstate := hended <;> rw [hstate] <;> rfl
      rw [hzero]
      decide
  | noBuffers =>
      rw [hending] at hended
      rw [hended]
      change (0 : Int) ≤ 0 ∧ (0 : Int) ≤ intMax
      decide
  | again =>
      rw [hending] at hended
      rw [hended]
      change 0 ≤ toInt32 (tokens + rts.interval) ∧ toInt32 (tokens + rts.interval) ≤ intMax
      rw [hsame, toInt32_of_range (by omega) hroom]
      omega

end Refill

/-! ## Probes in flight -/

/-- What the number of probes in flight depends on. -/
def flight (rts : PingRts) : Nat × UInt16 × Nat × Nat :=
  (rts.ntransmitted, rts.acked, rts.nreceived, rts.nerrors)

section Flight

variable {rts rts' : PingRts}

theorem inFlight_congr (same : flight rts = flight rts') : inFlight rts = inFlight rts' := by
  simp only [flight, Prod.mk.injEq] at same
  obtain ⟨hsent, hacked, hreceived, herrors⟩ := same
  rw [inFlight, inFlight, hsent, hacked, hreceived, herrors]

theorem flight_advance (same : flight rts = flight rts') :
    flight (advanceNtransmitted rts) = flight (advanceNtransmitted rts') := by
  simp only [flight, Prod.mk.injEq] at same
  obtain ⟨hsent, hacked, hreceived, herrors⟩ := same
  simp only [flight, advanceNtransmitted, hsent, hacked, hreceived, herrors]

theorem flight_iterate (same : flight rts = flight rts') (n : Nat) :
    flight (advanceNtransmitted^[n] rts) = flight (advanceNtransmitted^[n] rts') := by
  induction n generalizing rts rts' with
  | zero => exact same
  | succ n ih => exact ih (flight_advance same)

theorem counters_iterate (rts : PingRts) (n : Nat) :
    (advanceNtransmitted^[n] rts).ntransmitted = rts.ntransmitted + n ∧
      (advanceNtransmitted^[n] rts).nreceived = rts.nreceived ∧
      (advanceNtransmitted^[n] rts).nerrors = rts.nerrors := by
  induction n generalizing rts with
  | zero => exact ⟨rfl, rfl, rfl⟩
  | succ n ih =>
      obtain ⟨hsent, hreceived, herrors⟩ := ih (advanceNtransmitted rts)
      refine ⟨?_, hreceived, herrors⟩
      rw [Function.iterate_succ_apply, hsent]
      change rts.ntransmitted + 1 + n = _
      omega

/-- With each probe the distance to the acknowledged one grows by one, unless the latter is
invalidated. -/
theorem lag_advance (rts : PingRts) :
    lag (advanceNtransmitted rts) (advanceNtransmitted rts).acked = 65535 ∨
      lag (advanceNtransmitted rts) (advanceNtransmitted rts).acked =
        (lag rts rts.acked + 1) % 65536 := by
  have hsent : (advanceNtransmitted rts).ntransmitted = rts.ntransmitted + 1 := rfl
  rw [advanceNtransmitted_acked]
  split
  · left
    rw [lag_low16, hsent]
    omega
  · right
    rw [lag, lag, hsent]
    omega

/-- Sooner or later the counters have to tell the probes in flight. -/
theorem fallback_soon {m : Nat} (near : 0x8000 ≤ lag rts rts.acked + m) :
    ∃ j ≤ m, 0x7FFF < lag (advanceNtransmitted^[j] rts) (advanceNtransmitted^[j] rts).acked := by
  induction m generalizing rts with
  | zero => exact ⟨0, Nat.le_refl 0, by change _ < lag rts rts.acked; omega⟩
  | succ m ih =>
      by_cases hhere : 0x7FFF < lag rts rts.acked
      · exact ⟨0, Nat.zero_le _, hhere⟩
      obtain hlost | hnext := lag_advance rts
      · refine ⟨1, by omega, ?_⟩
        change _ < lag (advanceNtransmitted rts) (advanceNtransmitted rts).acked
        omega
      · have hlag : 0 ≤ lag rts rts.acked := Int.emod_nonneg _ (by decide)
        obtain ⟨j, hj, hfallback⟩ := @ih (advanceNtransmitted rts) (by omega)
        exact ⟨j + 1, by omega, hfallback⟩

/-- Without replies the probes in flight reach every preload. -/
theorem flight_fills (rts : PingRts) {preload : Int} (small : preload ≤ 65536) :
    ∃ n, preload ≤ inFlight (advanceNtransmitted^[n] rts) := by
  -- First the difference of the counters is brought to 65536 in 32-bit arithmetic.
  obtain ⟨start, hstart⟩ : ∃ start : Nat,
      ((rts.ntransmitted : Int) - rts.nreceived - rts.nerrors + start) % 4294967296 = 65536 :=
    ⟨((65536 - ((rts.ntransmitted : Int) - rts.nreceived - rts.nerrors)) % 4294967296).toNat,
      by omega⟩
  have hlag : 0 ≤ lag (advanceNtransmitted^[start] rts)
      (advanceNtransmitted^[start] rts).acked := Int.emod_nonneg _ (by decide)
  have hnear : 0x8000 ≤ lag (advanceNtransmitted^[start] rts)
      (advanceNtransmitted^[start] rts).acked + (0x8000 : Nat) := by omega
  obtain ⟨j, hj, hfallback⟩ := fallback_soon hnear
  refine ⟨j + start, ?_⟩
  rw [← Function.iterate_add_apply] at hfallback
  obtain ⟨hsent, hreceived, herrors⟩ := counters_iterate rts (j + start)
  rw [inFlight_eq, if_neg (by omega), hsent, hreceived, herrors, toInt32]
  omega

end Flight

/-! ## The loop -/

section Loop

variable {family : Family} {sock : SockType} {s t : LoopState} {c : PingerCall}

/-- A positive time to wait is lost only when the exit is scheduled, which it is once. -/
theorem scheduleExit_stays {rts : PingRts} {waittime next : Int} (positive : 0 < next)
    (stays : (scheduleExit rts waittime next).1 ≤ 0) :
    allSent rts ∧ (scheduleExit rts waittime next).2 ≠ 0 := by
  rw [scheduleExit] at stays ⊢
  by_cases hall : allSent rts
  · rw [if_pos hall] at stays ⊢
    rw [exitScheduled] at stays ⊢
    by_cases hscheduled : waittime ≠ 0
    · rw [if_pos hscheduled] at stays
      exact absurd stays (Int.not_le.mpr positive)
    · rw [if_neg hscheduled] at stays ⊢
      refine ⟨hall, ?_⟩
      dsimp only at stays ⊢
      split at stays
      next hlonger =>
        rw [if_pos hlonger]
        change exitWaittime rts ≠ 0
        omega
      · exact absurd stays (Int.not_le.mpr positive)
  · rw [if_neg hall] at stays
    exact absurd stays (Int.not_le.mpr positive)

/-- A pass behind which the loop goes on, with more to send: it has sent a probe. -/
structure Sent (s t : LoopState) (c : PingerCall) (tokens : Int) (rts : PingRts) : Prop where
  found : refill s.ping.rts s.ping.tokens c.clock = .send tokens
  state : t.ping = probeSent { s.ping with rts := rts, tokens := tokens }
  same : ∀ {α : Type} (field : PingRts → α), Resent field →
    field rts = field { s.ping.rts with curTime := c.clock }
  late : toInt32 (s.ping.rts.interval - tokens) ≤ 0

/-- What a pass does behind which the loop goes on. -/
theorem sendLoop_cases (good : Good s.ping) (timely : Timely s.ping c)
    (hstep : (sendLoop family sock).step s c = some t) :
    allSent t.ping.rts ∨ ∃ tokens rts, Sent s t c tokens rts := by
  obtain ⟨pass, hpass, hgoes⟩ := Option.bind_eq_some_iff.mp hstep
  obtain ⟨r, hr, rfl⟩ := Option.map_eq_some_iff.mp hpass
  dsimp only at hgoes
  split at hgoes
  swap
  · cases hgoes
  next hstays =>
  cases hgoes
  dsimp only
  have hpositive : 0 < r.wait → allSent r.state.rts := fun hwait =>
    (scheduleExit_stays hwait hstays).1
  obtain ⟨hstate, hidle⟩ | ⟨tokens, hfound, hsettled⟩ := pinger_settled hr
  · left
    apply hpositive
    obtain hidle | hwaits := hidle
    · rw [hidle]
      decide
    · exact good.wait_pos timely hwaits
  · obtain hwait | ⟨hsent, hlate⟩ := hsettled.wait
    · exact .inl (hpositive hwait)
    obtain ⟨rts, hstate, hsame⟩ := hsettled.sent hsent timely.explained
    by_cases hall : allSent r.state.rts
    · exact .inl hall
    · refine .inr ⟨tokens, rts, hfound, hstate, hsame, ?_⟩
      rw [scheduleExit, if_neg hall, hlate] at hstays
      exact hstays

/-- The passes that can still follow: two when everything is sent, and before that one for
each token, or for each probe up to the preload. -/
def Sends (n : Nat) (p : PingState) : Prop :=
  Good p ∧ p.rts.curTime ≠ {} ∧
    if p.rts.interval = 0 then p.rts.preload ≤ inFlight (advanceNtransmitted^[n] p.rts)
    else p.tokens ≤ n

def Near (n : Nat) (s : LoopState) : Prop :=
  (allSent s.ping.rts ∧ (1 ≤ n ∨ s.waittime ≠ 0)) ∨ ∃ m, n = m + 2 ∧ Sends m s.ping

section Pass

variable {tokens : Int} {rts : PingRts}

theorem Sent.interval (h : Sent s t c tokens rts) :
    t.ping.rts.interval = s.ping.rts.interval := by
  rw [h.state]
  exact h.same (·.interval) {}

theorem Sent.preload (h : Sent s t c tokens rts) : t.ping.rts.preload = s.ping.rts.preload := by
  rw [h.state]
  exact h.same (·.preload) {}

theorem Sent.curTime (h : Sent s t c tokens rts) : t.ping.rts.curTime = c.clock := by
  rw [h.state]
  exact h.same (·.curTime) {}

theorem Sent.flight (h : Sent s t c tokens rts) :
    flight t.ping.rts = flight (advanceNtransmitted s.ping.rts) := by
  rw [h.state]
  exact flight_advance (h.same SendLoop.flight {})

theorem Sent.level (h : Sent s t c tokens rts) : t.ping.tokens = tokens := by
  rw [h.state]
  rfl

theorem Sent.good (h : Sent s t c tokens rts) (good : Good s.ping) (timely : Timely s.ping c) :
    Good t.ping := by
  obtain ⟨hnonneg, hroom, -⟩ := good.send_bounds timely h.found
  have hinterval := good.interval.1
  constructor
  · rw [h.interval]
    exact good.interval
  · rw [h.preload]
    exact good.preload
  · rw [h.level]
    exact ⟨hnonneg, by omega⟩

/-- The interval is covered by the tokens that are left. -/
theorem Sent.covered (h : Sent s t c tokens rts) (good : Good s.ping)
    (timely : Timely s.ping c) : s.ping.rts.interval ≤ tokens := by
  obtain ⟨hnonneg, hroom, -⟩ := good.send_bounds timely h.found
  obtain ⟨hinterval, hsmall⟩ := good.interval
  have hmax : intMax = 2147483647 := rfl
  have hlate := h.late
  rw [toInt32_of_range (by omega) (by omega)] at hlate
  omega

/-- Each probe of a quick loop brings it nearer to its end. -/
theorem Sent.nearer {n : Nat} (h : Sent s t c tokens rts) (quick : Quick s c)
    (sends : Sends n s.ping) : ∃ m, n = m + 1 ∧ Sends m t.ping := by
  obtain ⟨hgood, hstarted, hleft⟩ := sends
  have hcovered := h.covered hgood quick.toTimely
  obtain ⟨hnonneg, -, hlater⟩ := hgood.send_bounds quick.toTimely h.found
  obtain ⟨hearned, hcapacity, hflood⟩ := hlater hstarted
  have hclock : t.ping.rts.curTime ≠ {} := by
    rw [h.curTime]
    exact quick.reading
  by_cases hzero : s.ping.rts.interval = 0
  · have hquick := quick.quick.resolve_left fun hsingle => by omega
    rw [if_pos hzero] at hquick hleft
    have hnotFull := hflood hzero hquick
    cases n with
    | zero => exact absurd hleft (Int.not_le.mpr hnotFull)
    | succ m =>
        refine ⟨m, rfl, h.good hgood quick.toTimely, hclock, ?_⟩
        rw [h.interval, if_pos hzero, h.preload, inFlight_congr (flight_iterate h.flight m)]
        exact hleft
  · rw [if_neg hzero] at hleft
    have hfewer : tokens < s.ping.tokens := by
      obtain ⟨-, hsingle⟩ | hquick := quick.quick
      · rw [hsingle] at hcapacity
        have hinterval := hgood.interval.1
        omega
      · rw [if_neg hzero] at hquick
        omega
    refine ⟨n - 1, by omega, h.good hgood quick.toTimely, hclock, ?_⟩
    rw [h.interval, if_neg hzero, h.level]
    omega

end Pass

theorem near_atEnd (near : Near 0 s) : (sendLoop family sock).step s c = none := by
  obtain ⟨hall, hset⟩ | ⟨m, hm, -⟩ := near
  · have hscheduled := hset.resolve_left (by decide)
    change (sendPass family sock s c).bind _ = none
    rw [sendPass, pinger_allSent hall, Option.map_some, Option.bind_some]
    dsimp only
    rw [scheduleExit, if_pos hall, exitScheduled, if_pos hscheduled]
    rfl
  · exact absurd hm (by omega)

/-- A state in which everything is sent needs no tokens. -/
theorem allSent_step (all : allSent s.ping.rts)
    (hstep : (sendLoop family sock).step s c = some t) :
    allSent t.ping.rts ∧ t.waittime ≠ 0 := by
  obtain ⟨pass, hpass, hgoes⟩ := Option.bind_eq_some_iff.mp hstep
  rw [sendPass, pinger_allSent all] at hpass
  cases hpass
  dsimp only at hgoes
  split at hgoes
  next hstays =>
    cases hgoes
    exact ⟨all, (scheduleExit_stays (by decide) hstays).2⟩
  · cases hgoes

theorem near_step {n : Nat} (near : Near (n + 1) s) (quick : Quick s c)
    (hstep : (sendLoop family sock).step s c = some t) : Near n t := by
  obtain ⟨hall, -⟩ | ⟨m, hm, hsends⟩ := near
  · obtain ⟨hall, hset⟩ := allSent_step hall hstep
    exact .inl ⟨hall, .inr hset⟩
  · obtain hall | ⟨tokens, rts, hsent⟩ :=
      sendLoop_cases hsends.1 quick.toTimely hstep
    · exact .inl ⟨hall, .inl (by omega)⟩
    · obtain ⟨k, rfl, hnext⟩ := hsent.nearer quick hsends
      exact .inr ⟨k, by omega, hnext⟩

/-- The loop is left after finitely many quick calls, whatever the kernel answers: no
longer run of it exists. The first call may come at any time. -/
def Ends (family : Family) (sock : SockType) (s : LoopState) : Prop :=
  ∀ c t, Timely s.ping c → (sendLoop family sock).step s c = some t →
    ∃ n, ∀ calls, (sendLoop family sock).Guarded Quick t calls → n < calls.length →
      (sendLoop family sock).final t calls = none

theorem sendLoop_ends (good : Good s.ping) : Ends family sock s := by
  intro c t timely hstep
  have hnear : ∃ n, Near n t := by
    obtain hall | ⟨tokens, rts, hsent⟩ := sendLoop_cases good timely hstep
    · exact ⟨1, .inl ⟨hall, .inl (Nat.le_refl 1)⟩⟩
    · have hgood := hsent.good good timely
      have hclock : t.ping.rts.curTime ≠ {} := by
        rw [hsent.curTime]
        exact timely.reading
      by_cases hzero : t.ping.rts.interval = 0
      · obtain ⟨n, hfull⟩ := flight_fills t.ping.rts hgood.preload.2
        exact ⟨n + 2, .inr ⟨n, rfl, hgood, hclock, by rw [if_pos hzero]; exact hfull⟩⟩
      · refine ⟨t.ping.tokens.toNat + 2, .inr ⟨_, rfl, hgood, hclock, ?_⟩⟩
        rw [if_neg hzero]
        exact Int.self_le_toNat _
  obtain ⟨n, hnear⟩ := hnear
  refine ⟨n, fun calls guarded long => ?_⟩
  exact Machine.final_eq_none hnear (fun s e near _ => near_atEnd near)
    (fun n s e t near quick step => near_step near quick step) guarded long

end Loop

end Coping.SendLoop
