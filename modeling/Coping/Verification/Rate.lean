import Mathlib.Tactic.Ring
import Coping.Library.Machine
import Coping.Library.TokenBucket
import Coping.Ping.Pinger

/-!
# The rate of the probes

The static `tokens` of `pinger` is a token bucket that gains one token in a
millisecond, holds `interval * preload` of them and pays `interval` for a probe.
`Session` logs the probes taken as transmitted, with the clock reading of their call
and the number of send attempts made before it and up to its end.

The elapsed time is put together from a difference of seconds and one of
nanoseconds, which is truncated toward zero: where it is negative the bucket gains
part of a millisecond too much. Each call that sends can gain it once, so the
attempts of a window stand in its bound.
-/

namespace Coping.Rate

open CInt TokenBucket

/-- A call that took its probe as transmitted. -/
structure Transmission where
  number : Nat
  clock : Timespec
  before : Nat
  after : Nat

structure Session where
  ping : PingState
  /-- Send attempts so far. -/
  attempts : Nat := 0
  /-- The transmitted probes, the last one first. -/
  transmitted : List Transmission := []

def logged (s : Session) (c : PingerCall) (r : Pinged) : Transmission where
  number := r.state.rts.ntransmitted
  clock := c.clock
  before := s.attempts
  after := s.attempts + r.sends.length

def called (s : Session) (c : PingerCall) (r : Pinged) : Session where
  ping := r.state
  attempts := s.attempts + r.sends.length
  transmitted := if r.ending.advances then logged s c r :: s.transmitted else s.transmitted

def step (family : Family) (sock : SockType) (s : Session) : LoopEvent → Option Session
  | .call c => (pinger family sock s.ping c).map (called s c)
  | .reply r => some { s with ping := { s.ping with rts := gatherStatistics s.ping.rts r } }
  | .error errno queue =>
      (family.receiveErrorMsg s.ping.rts sock errno queue).map fun r =>
        { s with ping := { s.ping with rts := r.rts } }

def machine (family : Family) (sock : SockType) : Machine Session LoopEvent where
  step := step family sock

def nanoseconds (t : Timespec) : Int := t.tvSec * 1000000000 + t.tvNsec

def clocks : List LoopEvent → List Timespec
  | [] => []
  | .call c :: es => c.clock :: clocks es
  | _ :: es => clocks es

/-- `n` probes of the window are at most those that the elapsed time and the preload
allow, up to one millisecond for each attempt. Times are in nanoseconds. -/
def WithinRate (interval preload : Int) (second first : Transmission) : Prop :=
  ((second.number - first.number + 1 : Int) - preload) * interval * 1000000 ≤
    (nanoseconds second.clock - nanoseconds first.clock) +
      ((second.after : Int) - first.before) * 1000000

structure Limited (interval preload : Int) (s : Session) : Prop where
  tokens : 0 ≤ s.ping.tokens ∧ s.ping.tokens ≤ interval * preload
  windows : s.transmitted.Pairwise (WithinRate interval preload)

/-! ## One call -/

/-- Milliseconds since the last call that sent, as `pinger` computes them. -/
def passed (rts : PingRts) (clock : Timespec) : Int :=
  (clock.tvSec - rts.curTime.tvSec) * 1000 + (clock.tvNsec - rts.curTime.tvNsec).tdiv 1000000

theorem passed_le (rts : PingRts) (clock : Timespec) :
    passed rts clock * 1000000 ≤ nanoseconds clock - nanoseconds rts.curTime + 1000000 := by
  have hsplit := Int.tdiv_mul_add_tmod (clock.tvNsec - rts.curTime.tvNsec) 1000000
  have hrounding := Int.lt_tmod_of_pos (clock.tvNsec - rts.curTime.tvNsec)
    (show (0 : Int) < 1000000 by decide)
  simp only [passed, nanoseconds]
  omega

/-- The first call fills the bucket for all but one of the preloaded probes. -/
theorem refill_first (tokens : Int) {rts : PingRts} (clock : Timespec) (unset : rts.curTime = {}) :
    refill rts tokens clock = .send (toInt32 (rts.interval * rts.preload - rts.interval)) := by
  rw [refill, if_pos (by rw [unset]; exact ⟨rfl, rfl⟩), mul_sub_one]

/-- Every other call fills it with the time that has passed. -/
theorem refill_started {rts : PingRts} (tokens : Int) (clock : Timespec)
    (started : rts.curTime ≠ {}) :
    refill rts tokens clock =
      if rts.interval = 0 ∧ passed rts clock < MIN_INTERVAL_MS ∧ inFlight rts ≥ rts.preload then
        .wait (toInt32 (MIN_INTERVAL_MS - passed rts clock))
      else if min (passed rts clock + tokens) (rts.interval * rts.preload) < rts.interval then
        .wait (toInt32 (rts.interval -
          min (passed rts clock + tokens) (rts.interval * rts.preload)))
      else
        .send (toInt32 (min (passed rts clock + tokens) (rts.interval * rts.preload) -
          rts.interval)) := by
  have hclock : ¬(rts.curTime.tvSec = 0 ∧ rts.curTime.tvNsec = 0) := by
    rintro ⟨hsec, hnsec⟩
    exact started (congrArg₂ Timespec.mk hsec hnsec)
  rw [refill, if_neg hclock]
  rfl

/-- Outside unlimited flood the token count is a bucket. -/
theorem withdraw_of_refill {rts : PingRts} {tokens left : Int} {clock : Timespec}
    (positive : 1 ≤ rts.interval) (bounded : rts.interval * rts.preload < intMax)
    (started : rts.curTime ≠ {}) (h : refill rts tokens clock = .send left) :
    withdraw (rts.interval * rts.preload) rts.interval tokens (passed rts clock) = some left := by
  rw [refill_started tokens clock started, if_neg fun hflood => absurd hflood.1 (by omega)] at h
  unfold withdraw
  dsimp only
  split at h
  · cases h
  next henough =>
    rw [if_neg henough]
    cases h
    have hfilled := min_le_right (passed rts clock + tokens) (rts.interval * rts.preload)
    rw [toInt32_of_range (by omega) (by omega)]

/-- What the endings leave in the bucket: nothing, what was there, or, when the
probe has to be sent again, its tokens as well. -/
theorem ended_tokens {s s' : PingState} {ending : Ending} {interval preload : Int}
    (h : Ended s ending s') (positive : 1 ≤ interval) (same : s.rts.interval = interval)
    (bounded : interval * preload < intMax) (nonneg : 0 ≤ s.tokens)
    (room : s.tokens ≤ interval * preload - interval) :
    0 ≤ s'.tokens ∧ s'.tokens + ending.advances.toNat * interval ≤ s.tokens + interval := by
  cases ending with
  | idle => cases h
  | sent =>
      cases h
      change 0 ≤ s.tokens ∧ s.tokens + 1 * interval ≤ s.tokens + interval
      omega
  | hardError =>
      have hzero : s'.tokens = 0 := by
        obtain rfl | rfl := h <;> rfl
      rw [hzero]
      change (0 : Int) ≤ 0 ∧ 0 + 1 * interval ≤ s.tokens + interval
      omega
  | noBuffers =>
      cases h
      change (0 : Int) ≤ 0 ∧ 0 + 0 * interval ≤ s.tokens + interval
      omega
  | again =>
      cases h
      change 0 ≤ toInt32 (s.tokens + s.rts.interval) ∧
        toInt32 (s.tokens + s.rts.interval) + 0 * interval ≤ s.tokens + interval
      rw [same, toInt32_of_range (by omega) (by omega)]
      omega

/-! ## The account of a run -/

def account (interval : Int) (s : Session) : Account Int where
  level := s.ping.tokens * 1000000
  earned := nanoseconds s.ping.rts.curTime + s.attempts * 1000000
  spent := s.ping.rts.ntransmitted * interval * 1000000

/-- The account right after a transmission, with the most that the bucket can hold
there. -/
def Transmission.account (interval preload : Int) (p : Transmission) : Account Int where
  level := (interval * preload - interval) * 1000000
  earned := nanoseconds p.clock + p.after * 1000000
  spent := p.number * interval * 1000000

structure Metered (interval preload : Int) (s : Session) : Prop where
  limited : Limited interval preload s
  preloaded : s.ping.rts.preload = preload
  started : s.transmitted = [] ∨ s.ping.rts.curTime ≠ {}
  ordered : ∀ p ∈ s.transmitted, p.before ≤ p.after
  paid : ∀ p ∈ s.transmitted, Paid (p.account interval preload) (account interval s)

/-- Every window that ends here is within the rate. -/
theorem withinRate_of_paid {interval preload : Int} {s : Session} {first second : Transmission}
    (h : Paid (first.account interval preload) (account interval s)) (nonneg : 0 ≤ s.ping.tokens)
    (ordered : first.before ≤ first.after) (number : second.number = s.ping.rts.ntransmitted)
    (clock : second.clock = s.ping.rts.curTime) (after : second.after = s.attempts) :
    WithinRate interval preload second first := by
  have hspent := h.spent_le (Int.mul_nonneg nonneg (by decide))
  simp only [account, Transmission.account] at hspent
  have hexpand : ((second.number - first.number + 1 : Int) - preload) * interval =
      second.number * interval - first.number * interval + interval - interval * preload := by
    ring
  rw [WithinRate, hexpand, number, clock, after]
  omega

theorem pinger_clock {family : Family} {sock : SockType} {s : PingState} {c : PingerCall}
    {r : Pinged} (sends : r.ending ≠ .idle) (hr : pinger family sock s c = some r) :
    r.state.rts.curTime = c.clock := by
  obtain ⟨hidle, -, -⟩ | ⟨tokens, rts, -, hattempted, hended, -⟩ := pinger_cases hr
  · exact absurd hidle sends
  · rw [hended.field (·.curTime) (fun _ => rfl) (fun _ => rfl) (fun _ => rfl)]
    exact hattempted.field (·.curTime) {}

theorem pinger_preload {family : Family} {sock : SockType} {s : PingState} {c : PingerCall}
    {r : Pinged} (hr : pinger family sock s c = some r) :
    r.state.rts.preload = s.rts.preload :=
  pinger_field (·.preload) {} hr

/-- The token that a call takes to send. -/
theorem refill_bounds {rts : PingRts} {tokens left : Int} {clock : Timespec}
    (positive : 1 ≤ rts.interval) (preload : 1 ≤ rts.preload)
    (bounded : rts.interval * rts.preload < intMax) (h : refill rts tokens clock = .send left) :
    0 ≤ left ∧ left ≤ rts.interval * rts.preload - rts.interval ∧
      (rts.curTime ≠ {} → left + rts.interval ≤ tokens + passed rts clock) := by
  by_cases hstarted : rts.curTime = {}
  · have hroom := Int.mul_le_mul_of_nonneg_left preload (Int.le_trans (by decide) positive)
    rw [refill_first tokens clock hstarted, toInt32_of_range (by omega) (by omega)] at h
    cases h
    exact ⟨by omega, Int.le_refl _, fun hset => absurd hstarted hset⟩
  · have hbucket := withdraw_of_refill positive bounded hstarted h
    exact ⟨withdraw_nonneg hbucket, withdraw_le hbucket, fun _ => withdraw_add_le hbucket⟩

/-- One call, in the account: the tokens left and the probes paid for were in the
bucket or have come in since the last call that sent. -/
theorem called_pays {s : Session} {family : Family} {sock : SockType} {c : PingerCall}
    {r : Pinged} {interval : Int} (positive : 1 ≤ interval) (preload : 1 ≤ s.ping.rts.preload)
    (bounded : interval * s.ping.rts.preload < intMax) (same : s.ping.rts.interval = interval)
    (sends : r.ending ≠ .idle) (hr : pinger family sock s.ping c = some r) :
    0 ≤ r.state.tokens ∧
      r.state.tokens + r.ending.advances.toNat * interval ≤ interval * s.ping.rts.preload ∧
      (s.ping.rts.curTime ≠ {} → Paid (account interval s) (account interval (called s c r))) := by
  obtain ⟨hidle, -, -⟩ | ⟨tokens, rts, hrefill, hattempted, hended, hsends⟩ := pinger_cases hr
  · exact absurd hidle sends
  obtain ⟨hnonneg, hroom, hpaid⟩ :=
    refill_bounds (by omega) preload (by rw [same]; exact bounded) hrefill
  rw [same] at hroom hpaid
  have hinterval : rts.interval = interval := (hattempted.field (·.interval) {}).trans same
  obtain ⟨htokens, hleft⟩ := ended_tokens hended positive hinterval bounded hnonneg hroom
  change r.state.tokens + _ ≤ tokens + interval at hleft
  refine ⟨htokens, by omega, ?_⟩
  intro hstarted
  have hclock := pinger_clock sends hr
  obtain ⟨-, hnumber, -⟩ := pinger_counters hr
  have hattempts : 1 ≤ r.sends.length := List.length_pos_iff.mpr hsends
  have hpassed := passed_le s.ping.rts c.clock
  have hspent := hpaid hstarted
  simp only [Paid, account, called, hclock, hnumber, Int.natCast_add, Int.add_mul]
  omega

/-- A call keeps the books. -/
theorem Metered.call {interval preload : Int} {s : Session} (h : Metered interval preload s)
    {family : Family} {sock : SockType} {c : PingerCall} {r : Pinged}
    (positive : 1 ≤ interval) (preloaded : 1 ≤ preload) (bounded : interval * preload < intMax)
    (same : s.ping.rts.interval = interval) (reading : c.clock ≠ {})
    (hr : pinger family sock s.ping c = some r) : Metered interval preload (called s c r) := by
  by_cases hidle : r.ending = .idle
  · obtain ⟨-, hstate, hsends⟩ | ⟨_, _, -, -, hended, -⟩ := pinger_cases hr
    · have hsame : called s c r = s := by
        simp [called, hidle, hstate, hsends, Ending.advances]
      rw [hsame]
      exact h
    · rw [hidle] at hended
      cases hended
  obtain ⟨htokens, hroom, hpays⟩ := called_pays positive
    (by rw [h.preloaded]; exact preloaded) (by rw [h.preloaded]; exact bounded) same hidle hr
  rw [h.preloaded] at hroom
  have hpaid : ∀ p ∈ s.transmitted,
      Paid (p.account interval preload) (account interval (called s c r)) := fun p hp =>
    (h.paid p hp).trans (hpays (h.started.resolve_left (List.ne_nil_of_mem hp)))
  have hstarted : r.state.rts.curTime ≠ {} := by
    rw [pinger_clock hidle hr]
    exact reading
  cases hadvances : r.ending.advances with
  | false =>
      have hsame : (called s c r).transmitted = s.transmitted := by
        simp [called, hadvances]
      rw [hadvances] at hroom
      exact {
        limited := ⟨⟨htokens, by change r.state.tokens ≤ _; simpa using hroom⟩,
          by rw [hsame]; exact h.limited.windows⟩
        preloaded := (pinger_preload hr).trans h.preloaded
        started := .inr hstarted
        ordered := by rw [hsame]; exact h.ordered
        paid := by rw [hsame]; exact hpaid }
  | true =>
      have hlog : (called s c r).transmitted = logged s c r :: s.transmitted := by
        simp [called, hadvances]
      rw [hadvances] at hroom
      change r.state.tokens + 1 * interval ≤ _ at hroom
      have hclock := pinger_clock hidle hr
      have hfirst :
          Paid ((logged s c r).account interval preload) (account interval (called s c r)) := by
        simp only [Paid, account, Transmission.account, logged, called, hclock]
        omega
      refine
        { limited := ⟨⟨htokens, ?_⟩, ?_⟩
          preloaded := (pinger_preload hr).trans h.preloaded
          started := .inr hstarted
          ordered := ?_
          paid := ?_ }
      · change r.state.tokens ≤ _
        omega
      · rw [hlog]
        refine List.pairwise_cons.mpr ⟨?_, h.limited.windows⟩
        intro first hmem
        exact withinRate_of_paid (hpaid first hmem) htokens (h.ordered first hmem) rfl
          hclock.symm rfl
      · rw [hlog]
        exact List.forall_mem_cons.mpr ⟨Nat.le_add_right _ _, h.ordered⟩
      · rw [hlog]
        exact List.forall_mem_cons.mpr ⟨hfirst, hpaid⟩

/-- Replies and queued errors leave the bucket and the clock alone. -/
theorem Metered.frame {interval preload : Int} {s : Session} (h : Metered interval preload s)
    {rts : PingRts} (preloaded : rts.preload = s.ping.rts.preload)
    (curTime : rts.curTime = s.ping.rts.curTime)
    (ntransmitted : rts.ntransmitted = s.ping.rts.ntransmitted) :
    Metered interval preload { s with ping := { s.ping with rts := rts } } where
  limited := ⟨h.limited.tokens, h.limited.windows⟩
  preloaded := preloaded.trans h.preloaded
  started := h.started.imp_right fun hset => by
    change rts.curTime ≠ {}
    rw [curTime]
    exact hset
  ordered := h.ordered
  paid p hp := by
    have hsame : account interval { s with ping := { s.ping with rts := rts } } =
        account interval s := by
      simp only [account, curTime, ntransmitted]
    rw [hsame]
    exact h.paid p hp

/-- The clock is not zero when a call reads it. -/
def Running (_ : Session) : LoopEvent → Prop
  | .call c => c.clock ≠ {}
  | _ => True

theorem Metered.step {interval preload : Int} {s t : Session} {e : LoopEvent}
    (h : Metered interval preload s) {family : Family} {sock : SockType} (positive : 1 ≤ interval)
    (preloaded : 1 ≤ preload) (bounded : interval * preload < intMax)
    (same : s.ping.rts.interval = interval) (running : Running s e)
    (hstep : step family sock s e = some t) : Metered interval preload t := by
  cases e with
  | call c =>
      obtain ⟨r, hr, rfl⟩ := Option.map_eq_some_iff.mp hstep
      exact h.call positive preloaded bounded same running hr
  | reply r =>
      cases hstep
      exact h.frame (gatherStatistics_field (·.preload) {} _ r fun _ _ => rfl)
        (gatherStatistics_field (·.curTime) {} _ r fun _ _ => rfl)
        (gatherStatistics_ntransmitted _ r)
  | error errno queue =>
      obtain ⟨r, hr, rfl⟩ := Option.map_eq_some_iff.mp hstep
      exact h.frame (Family.receiveErrorMsg_field (·.preload) (fun _ _ => rfl) (fun _ => rfl) hr)
        (Family.receiveErrorMsg_field (·.curTime) (fun _ _ => rfl) (fun _ => rfl) hr)
        (Family.receiveErrorMsg_field (·.ntransmitted) (fun _ _ => rfl) (fun _ => rfl) hr)

theorem Metered.init {options : PingRts} {interval : Int} (positive : 1 ≤ interval)
    (preload : 1 ≤ options.preload) :
    Metered interval options.preload { ping := { rts := options.start } } where
  limited :=
    ⟨⟨Int.le_refl 0, Int.mul_nonneg (Int.le_trans (by decide) positive)
      (Int.le_trans (by decide) preload)⟩, List.Pairwise.nil⟩
  preloaded := rfl
  started := .inl rfl
  ordered := List.forall_mem_nil _
  paid := List.forall_mem_nil _

theorem guarded_running {family : Family} {sock : SockType} {es : List LoopEvent}
    (nonzero : ∀ c ∈ clocks es, c ≠ {}) (s : Session) :
    (machine family sock).Guarded Running s es := by
  induction es generalizing s with
  | nil => trivial
  | cons e es ih =>
      cases e with
      | call c =>
          obtain ⟨hfirst, hrest⟩ := List.forall_mem_cons.mp nonzero
          exact ⟨hfirst, fun t _ => ih hrest t⟩
      | reply r => exact ⟨trivial, fun t _ => ih nonzero t⟩
      | error errno queue => exact ⟨trivial, fun t _ => ih nonzero t⟩

/-! ## Runs -/

/-- Outside adaptive mode the interval is the one that the run starts with. -/
theorem interval_constant (family : Family) (sock : SockType) (options : PingRts)
    (fixed : options.optAdaptive = false) (es : List LoopEvent) :
    (machine family sock).Always (fun s => s.ping.rts.interval = options.interval)
      { ping := { rts := options.start } } es := by
  have hrun : (machine family sock).Always
      (fun s => s.ping.rts.interval = options.interval ∧ s.ping.rts.optAdaptive = false)
      { ping := { rts := options.start } } es := by
    refine Machine.Always.of_invariant (G := fun _ _ => True) ⟨rfl, fixed⟩ ?_
      (Machine.guarded_of_forall fun _ _ => trivial)
    rintro s e t ⟨hinterval, hfixed⟩ - hstep
    cases e with
    | call c =>
        obtain ⟨r, hr, rfl⟩ := Option.map_eq_some_iff.mp hstep
        have hsame := (pinger_interval hr).resolve_right
          fun h => absurd h.1 (by rw [hfixed]; decide)
        exact ⟨hsame.trans hinterval, (pinger_field (·.optAdaptive) {} hr).trans hfixed⟩
    | reply r =>
        cases hstep
        exact ⟨(gatherStatistics_field (·.interval) {} _ r fun hadaptive => absurd hadaptive
          (by rw [hfixed]; decide)).trans hinterval,
          (gatherStatistics_field (·.optAdaptive) {} _ r fun _ _ => rfl).trans hfixed⟩
    | error errno queue =>
        obtain ⟨r, hr, rfl⟩ := Option.map_eq_some_iff.mp hstep
        exact ⟨(Family.receiveErrorMsg_field (·.interval) (fun _ _ => rfl) (fun _ => rfl)
          hr).trans hinterval,
          (Family.receiveErrorMsg_field (·.optAdaptive) (fun _ _ => rfl) (fun _ => rfl)
            hr).trans hfixed⟩
  exact hrun.mono fun s h => h.1

/-- In a run with a constant interval the token count stays in its bucket, and the
probes of every window stay within rate times time plus preload, up to one
millisecond for each send attempt of the window. The clock readings need not even
increase. -/
theorem rate_limited (family : Family) (sock : SockType) (options : PingRts) (interval : Int)
    (es : List LoopEvent) (positive : 1 ≤ interval) (preload : 1 ≤ options.preload)
    (bounded : interval * options.preload < intMax) (nonzero : ∀ c ∈ clocks es, c ≠ {})
    (constant : (machine family sock).Always (fun s => s.ping.rts.interval = interval)
      { ping := { rts := options.start } } es) :
    (machine family sock).Always (Limited interval options.preload)
      { ping := { rts := options.start } } es := by
  refine Machine.Always.of_assumption (I := Metered interval options.preload)
    (Metered.init positive preload) ?_ (fun s h _ => h.limited) constant (guarded_running nonzero _)
  intro s e t h same running hstep _
  exact h.step positive preload bounded same running hstep

/-- A probe, a full socket buffer, the probe again, and a hard error. -/
def retried : List LoopEvent :=
  [.call { clock := { tvSec := 1 }, attempts := [{ ret := 0 }] },
    .call { clock := { tvSec := 2 }, attempts := [{ ret := -1, errno := EAGAIN }] },
    .call { clock := { tvSec := 2, tvNsec := 10000000 }, attempts := [{ ret := 0 }] },
    .call { clock := { tvSec := 3, tvNsec := 9000001 }, attempts := [{ ret := -1, errno := 1 }] }]

theorem rate_limited_retried :
    (machine .inet .dgram).Always (Limited 1000 1) { ping := { rts := PingRts.start {} } }
      retried :=
  rate_limited .inet .dgram {} 1000 retried (by decide) (by decide) (by decide) (by decide)
    (interval_constant .inet .dgram {} rfl retried)

end Coping.Rate
