import Coping.Ping.Pinger
import Coping.Ping.Setup

/-!
# The interval of an ordinary user

A user other than the super-user may not send faster than every 2 ms, and not faster
than every second to a broadcast or multicast address. The second limit is checked
once, in `ping4_run` and `ping6_run`. `update_interval`, which sets the interval
again on every timed reply and every queue overflow of adaptive mode, keeps the first
limit and not the second. And behind a source route a broadcast address needs no `-b`,
so that the check is not made for it. `Patient` is the condition on the updates under
which the run stays polite.

`Session` logs the interval that each call used which handed a packet to the kernel,
and whether the kernel took it.
-/

namespace Coping.Interval

open CInt

structure Use where
  interval : Int
  sent : Bool
  deriving DecidableEq

structure Session where
  ping : PingState
  used : List Use := []

def called (s : Session) (r : Pinged) : Session where
  ping := r.state
  used :=
    if r.sends.isEmpty then s.used
    else { interval := s.ping.rts.interval, sent := decide (r.ending = .sent) } :: s.used

def step (family : Family) (sock : SockType) (s : Session) : LoopEvent → Option Session
  | .call c => (pinger family sock s.ping c).map (called s)
  | .reply r => some { s with ping := { s.ping with rts := gatherStatistics s.ping.rts r } }
  | .error errno queue =>
      (family.receiveErrorMsg s.ping.rts sock errno queue).map fun r =>
        { s with ping := { s.ping with rts := r.rts } }

def machine (family : Family) (sock : SockType) : Machine Session LoopEvent where
  step := step family sock

/-- The intervals used respect both limits. To a broadcast address a probe is sent
when the kernel takes the packet. -/
def Polite (family : Family) (kernel : Kernel) (s : Session) : Prop :=
  ∀ u ∈ s.used, MIN_USER_INTERVAL_MS ≤ u.interval ∧
    (family.isMulticast s.ping.rts = true → MIN_MULTICAST_USER_INTERVAL_MS ≤ u.interval) ∧
    (family.isBroadcast kernel s.ping.rts = true → u.sent = true →
      MIN_MULTICAST_USER_INTERVAL_MS ≤ u.interval)

instance (family : Family) (kernel : Kernel) (s : Session) :
    Decidable (Polite family kernel s) :=
  inferInstanceAs (Decidable (∀ u ∈ s.used, _ ∧ _ ∧ _))

/-- Without `SO_BROADCAST` the kernel takes no packet to a broadcast address. With a source route
it looks at the first hop instead. -/
def Refusing (family : Family) (kernel : Kernel) (d : Destination) (s : Session) :
    LoopEvent → Prop
  | .call c => d.optSourceroute = false → family.isBroadcast kernel s.ping.rts = true →
      s.ping.rts.broadcastPings = false → ∀ a ∈ c.attempts, a.ret < 0
  | _ => True

/-- The destination is a broadcast or multicast one that the kernel lets pass. -/
def Grouped (family : Family) (kernel : Kernel) (d : Destination) (rts : PingRts) : Prop :=
  rts.multicast = true ∨ d.optSourceroute = true ∧ family.isBroadcast kernel rts = true

/-- The smoothed round-trip time, or the interval where there is none yet, with the
slowdown added, rounds to a second or more. -/
def Slow (rtt : UInt64) (rttAddend interval : Int) : Prop :=
  1000000 ≤ toInt32 ((if rtt = 0 then interval * 1000 else (rtt / 8).toNat) + rttAddend + 500)

/-- The step leaves the round-trip time slow, if adaptive mode would set the interval
by it for a broadcast or multicast destination. -/
def Patient (family : Family) (kernel : Kernel) (d : Destination) (s : Session) (e : LoopEvent) :
    Prop :=
  Grouped family kernel d s.ping.rts → s.ping.rts.optAdaptive = true →
    match e with
    | .call c => (∃ a ∈ c.attempts, a.overflows) →
        Slow s.ping.rts.rtt (slowedAddend s.ping.rts.rtt s.ping.rts.rttAddend) s.ping.rts.interval
    | .reply r => ∀ time ∈ measured s.ping.rts r,
        Slow (smoothedRtt s.ping.rts.rtt time) s.ping.rts.rttAddend s.ping.rts.interval
    | .error _ _ => True

instance (family : Family) (kernel : Kernel) (d : Destination) (s : Session) :
    ∀ e, Decidable (Refusing family kernel d s e)
  | .call _ => inferInstanceAs (Decidable (_ → _ → _ → _))
  | .reply _ | .error _ _ => isTrue trivial

instance (family : Family) (kernel : Kernel) (d : Destination) (rts : PingRts) :
    Decidable (Grouped family kernel d rts) :=
  inferInstanceAs (Decidable (_ ∨ _))

instance (rtt : UInt64) (rttAddend interval : Int) : Decidable (Slow rtt rttAddend interval) :=
  inferInstanceAs (Decidable (_ ≤ _))

instance (a : Attempt) : Decidable a.overflows := inferInstanceAs (Decidable (_ ∨ _))

instance (family : Family) (kernel : Kernel) (d : Destination) (s : Session) :
    ∀ e, Decidable (Patient family kernel d s e)
  | .call _ => inferInstanceAs (Decidable (_ → _ → (∃ a ∈ _, _) → _))
  | .reply r => inferInstanceAs (Decidable (_ → _ → ∀ time ∈ measured s.ping.rts r, _))
  | .error _ _ => isTrue fun _ _ => trivial

/-! ## The next interval -/

theorem nextInterval_user {uid : Nat} (user : uid ≠ 0) (rtt : UInt64) (rttAddend interval : Int) :
    MIN_USER_INTERVAL_MS ≤ nextInterval uid rtt rttAddend interval := by
  simp only [nextInterval]
  generalize (toInt32 (toInt32 ((if rtt ≠ 0 then toInt32 (rtt / 8).toNat
    else toInt32 (interval * 1000)) + rttAddend) + 500)).tdiv 1000 = next
  by_cases hclamp : next < MIN_USER_INTERVAL_MS
  · rw [if_pos ⟨user, hclamp⟩]
  · rw [if_neg fun h => hclamp h.2]
    exact Int.not_lt.mp hclamp

theorem nextInterval_slow {rtt : UInt64} {rttAddend interval : Int}
    (slow : Slow rtt rttAddend interval) (uid : Nat) :
    MIN_MULTICAST_USER_INTERVAL_MS ≤ nextInterval uid rtt rttAddend interval := by
  have hwrap : ∀ est : Int, toInt32 (toInt32 (toInt32 est + rttAddend) + 500) =
      toInt32 (est + rttAddend + 500) := by
    intro est
    simp only [toInt32]
    omega
  have hest : (if rtt ≠ 0 then toInt32 (rtt / 8).toNat else toInt32 (interval * 1000)) =
      toInt32 (if rtt = 0 then interval * 1000 else (rtt / 8).toNat) := by
    by_cases hzero : rtt = 0
    · rw [if_neg (not_not.mpr hzero), if_pos hzero]
    · rw [if_pos hzero, if_neg hzero]
  have hdiv : 1000 ≤ (toInt32 ((if rtt = 0 then interval * 1000 else ((rtt / 8).toNat : Int)) +
      rttAddend + 500)).tdiv 1000 := by
    rw [Int.tdiv_eq_ediv_of_nonneg (Int.le_trans (by decide) slow)]
    exact Int.le_ediv_of_mul_le (by decide) slow
  simp only [nextInterval, hest, hwrap]
  generalize (toInt32 ((if rtt = 0 then interval * 1000 else ((rtt / 8).toNat : Int)) +
    rttAddend + 500)).tdiv 1000 = next at hdiv ⊢
  have hclamp : ¬next < MIN_USER_INTERVAL_MS := by
    simp only [MIN_USER_INTERVAL_MS]
    omega
  rw [if_neg fun h => hclamp h.2]
  exact hdiv

theorem gatherTiming_interval (rts : PingRts) (reply : Reply) :
    (gatherTiming rts reply).interval = rts.interval ∨
      rts.optAdaptive = true ∧ reply.csfailed = false ∧ (gatherTiming rts reply).interval =
        nextInterval rts.uid (smoothedRtt rts.rtt (triptime rts.optLatency reply)) rts.rttAddend
          rts.interval := by
  simp only [gatherTiming]
  split
  · exact .inl rfl
  next hgood =>
    split
    next hadaptive => exact .inr ⟨hadaptive, by simpa using hgood, rfl⟩
    · exact .inl rfl

theorem receiveReply_interval (rts : PingRts) (reply : Reply) :
    (receiveReply rts reply).interval = rts.interval ∨
      rts.optAdaptive = true ∧ ∃ time, measured rts reply = some time ∧
        (receiveReply rts reply).interval =
          nextInterval rts.uid (smoothedRtt rts.rtt time) rts.rttAddend rts.interval := by
  rw [receiveReply]
  split
  next htimed =>
    have hacked : ∀ {α : Type} (field : PingRts → α),
        (∀ rts, field (countReceived rts) = field rts) →
        (∀ rts seq, field (acknowledge rts seq) = field rts) →
        field (if reply.csfailed then countReceived rts
          else acknowledge (countReceived rts) reply.seq) = field rts := by
      intro α field counted acknowledged
      split
      · exact counted rts
      · exact (acknowledged _ _).trans (counted rts)
    have hcase := gatherTiming_interval (if reply.csfailed then countReceived rts
      else acknowledge (countReceived rts) reply.seq) reply
    rw [hacked (·.interval) (fun _ => rfl) fun _ _ => rfl,
      hacked (·.optAdaptive) (fun _ => rfl) fun _ _ => rfl,
      hacked (·.uid) (fun _ => rfl) fun _ _ => rfl,
      hacked (·.rtt) (fun _ => rfl) fun _ _ => rfl,
      hacked (·.optLatency) (fun _ => rfl) fun _ _ => rfl,
      hacked (·.rttAddend) (fun _ => rfl) fun _ _ => rfl] at hcase
    apply hcase.imp_right
    rintro ⟨hadaptive, hgood, hnext⟩
    exact ⟨hadaptive, _, if_pos ⟨htimed.1, htimed.2, hgood⟩, hnext⟩
  · left
    split <;> rfl

/-- A reply sets the interval in adaptive mode, when it brings a triptime. -/
theorem gatherStatistics_interval (rts : PingRts) (reply : Reply) :
    (gatherStatistics rts reply).interval = rts.interval ∨
      rts.optAdaptive = true ∧ ∃ time, measured rts reply = some time ∧
        (gatherStatistics rts reply).interval =
          nextInterval rts.uid (smoothedRtt rts.rtt time) rts.rttAddend rts.interval := by
  have hsame : (gatherStatistics rts reply).interval = (receiveReply rts reply).interval := by
    obtain ⟨-, hcase⟩ | ⟨-, -, hcase⟩ | ⟨-, -, hcase⟩ := gatherStatistics_cases rts reply <;>
      rw [hcase] <;> rfl
  rw [hsame]
  exact receiveReply_interval rts reply

/-! ## The limits along a run -/

/-- The fields that the main loop leaves alone. -/
def fixed (rts : PingRts) : Nat × Bool × Bool × UInt32 × BitVec 128 :=
  (rts.uid, rts.multicast, rts.broadcastPings, rts.whereto, rts.whereto6)

/-- The state of an ordinary user that keeps the limits. -/
structure Bounded (family : Family) (kernel : Kernel) (d : Destination) (rts : PingRts) :
    Prop where
  user : rts.uid ≠ 0
  multicast : family.isMulticast rts = true → rts.multicast = true
  broadcast : family.isBroadcast kernel rts = true → rts.broadcastPings = true →
    rts.multicast = true
  interval : MIN_USER_INTERVAL_MS ≤ rts.interval
  group : Grouped family kernel d rts → MIN_MULTICAST_USER_INTERVAL_MS ≤ rts.interval

section Fixed

variable {family : Family} {kernel : Kernel} {d : Destination} {rts rts' : PingRts}

theorem fixed_eq (family : Family) (kernel : Kernel) (same : fixed rts' = fixed rts) :
    rts'.uid = rts.uid ∧ rts'.multicast = rts.multicast ∧
      rts'.broadcastPings = rts.broadcastPings ∧ family.isMulticast rts' = family.isMulticast rts ∧
        family.isBroadcast kernel rts' = family.isBroadcast kernel rts := by
  obtain ⟨huid, hmulticast, hbroadcast, hwhereto, hwhereto6⟩ :
      rts'.uid = rts.uid ∧ rts'.multicast = rts.multicast ∧
        rts'.broadcastPings = rts.broadcastPings ∧ rts'.whereto = rts.whereto ∧
          rts'.whereto6 = rts.whereto6 := by
    simpa only [fixed, Prod.mk.injEq] using same
  refine ⟨huid, hmulticast, hbroadcast, ?_, ?_⟩ <;> cases family <;>
    simp only [Family.isMulticast, Family.isBroadcast, hwhereto, hwhereto6]

theorem Bounded.of_fixed (h : Bounded family kernel d rts) (same : fixed rts' = fixed rts)
    (interval : MIN_USER_INTERVAL_MS ≤ rts'.interval)
    (group : Grouped family kernel d rts → MIN_MULTICAST_USER_INTERVAL_MS ≤ rts'.interval) :
    Bounded family kernel d rts' := by
  obtain ⟨huid, hflag, hpings, hmulticast, hbroadcast⟩ := fixed_eq family kernel same
  exact {
    user := by rw [huid]; exact h.user
    multicast := by rw [hmulticast, hflag]; exact h.multicast
    broadcast := by rw [hbroadcast, hpings, hflag]; exact h.broadcast
    interval := interval
    group := by rw [Grouped, hflag, hbroadcast]; exact group }

theorem Polite.of_fixed {s : Session} (h : Polite family kernel s) (ping : PingState)
    (same : fixed ping.rts = fixed s.ping.rts) :
    Polite family kernel { s with ping := ping } := by
  obtain ⟨-, -, -, hmulticast, hbroadcast⟩ := fixed_eq family kernel same
  intro u hu
  change _ ∧ (family.isMulticast ping.rts = true → _) ∧
    (family.isBroadcast kernel ping.rts = true → _)
  rw [hmulticast, hbroadcast]
  exact h u hu

end Fixed

section Steps

variable {family : Family} {kernel : Kernel} {d : Destination} {sock : SockType} {s : Session}

theorem Bounded.reply (h : Bounded family kernel d s.ping.rts) (r : Reply)
    (patient : Patient family kernel d s (.reply r)) :
    Bounded family kernel d (gatherStatistics s.ping.rts r) := by
  have hsame := gatherStatistics_field fixed {} s.ping.rts r fun _ _ => rfl
  obtain hkept | ⟨hadaptive, time, hmeasured, hnext⟩ := gatherStatistics_interval s.ping.rts r
  · apply h.of_fixed hsame
    · rw [hkept]
      exact h.interval
    · rw [hkept]
      exact h.group
  · refine h.of_fixed hsame ?_ fun hgroup => ?_
    · rw [hnext]
      exact nextInterval_user h.user _ _ _
    · rw [hnext]
      exact nextInterval_slow (patient hgroup hadaptive time hmeasured) _

theorem Bounded.call (h : Bounded family kernel d s.ping.rts) {c : PingerCall} {r : Pinged}
    (patient : Patient family kernel d s (.call c)) (hr : pinger family sock s.ping c = some r) :
    Bounded family kernel d r.state.rts := by
  have hsame := pinger_field fixed {} hr
  have hkeep : r.state.rts.interval = s.ping.rts.interval →
      Bounded family kernel d r.state.rts := by
    intro hkept
    apply h.of_fixed hsame
    · rw [hkept]
      exact h.interval
    · rw [hkept]
      exact h.group
  obtain hkept | ⟨hadaptive, hnext⟩ := pinger_interval hr
  · exact hkeep hkept
  by_cases hsends : r.sends = []
  · obtain ⟨-, hstate, -⟩ | ⟨-, -, -, -, -, hsent⟩ := pinger_cases hr
    · exact hkeep (by rw [hstate])
    · exact absurd hsends hsent
  obtain ⟨a, hmem, -, hfits⟩ := pinger_answer hr hsends
  by_cases hfull : a.overflows
  · refine h.of_fixed hsame ?_ fun hgroup => ?_
    · rw [hnext]
      exact nextInterval_user h.user _ _ _
    · rw [hnext]
      exact nextInterval_slow (patient hgroup hadaptive ⟨a, hmem, hfull⟩) _
  · exact hkeep (hfits hfull)

theorem Polite.call (h : Polite family kernel s) (bounded : Bounded family kernel d s.ping.rts)
    {c : PingerCall} {r : Pinged} (refusing : Refusing family kernel d s (.call c))
    (hr : pinger family sock s.ping c = some r) : Polite family kernel (called s r) := by
  have hsame := pinger_field fixed {} hr
  have hlog := h.of_fixed r.state hsame
  cases hsends : r.sends.isEmpty with
  | true =>
      have hcalled : called s r = { s with ping := r.state } := by
        simp only [called, hsends, if_true]
      rw [hcalled]
      exact hlog
  | false =>
      obtain ⟨-, -, -, hmulticast, hbroadcast⟩ := fixed_eq family kernel hsame
      have hnonempty : r.sends ≠ [] := by
        intro hempty
        rw [hempty] at hsends
        cases hsends
      intro u hu
      have hmem : u = { interval := s.ping.rts.interval, sent := decide (r.ending = .sent) } ∨
          u ∈ s.used := by
        simpa [called, hsends] using hu
      obtain rfl | hold := hmem
      · refine ⟨bounded.interval, fun hgroup => ?_, fun hgroup hsent => ?_⟩
        · exact bounded.group (.inl (bounded.multicast (hmulticast ▸ hgroup)))
        · have hdestination : family.isBroadcast kernel s.ping.rts = true := hbroadcast ▸ hgroup
          by_cases hrouted : d.optSourceroute = true
          · exact bounded.group (.inr ⟨hrouted, hdestination⟩)
          have hdirect := Bool.eq_false_iff.mpr hrouted
          cases hpings : s.ping.rts.broadcastPings with
          | true => exact bounded.group (.inl (bounded.broadcast hdestination hpings))
          | false =>
              obtain ⟨a, hattempt, htaken, -⟩ := pinger_answer hr hnonempty
              have hrefused := refusing hdirect hdestination hpings a hattempt
              have := htaken (of_decide_eq_true hsent)
              omega
      · exact hlog u hold

/-- The state keeps the limits, and so have the calls. -/
structure Kept (family : Family) (kernel : Kernel) (d : Destination) (s : Session) : Prop where
  bounded : Bounded family kernel d s.ping.rts
  polite : Polite family kernel s

theorem Kept.step {t : Session} {e : LoopEvent} (h : Kept family kernel d s)
    (refusing : Refusing family kernel d s e) (patient : Patient family kernel d s e)
    (hstep : step family sock s e = some t) : Kept family kernel d t := by
  cases e with
  | call c =>
      obtain ⟨r, hr, rfl⟩ := Option.map_eq_some_iff.mp hstep
      exact ⟨h.bounded.call patient hr, h.polite.call h.bounded refusing hr⟩
  | reply r =>
      cases hstep
      exact ⟨h.bounded.reply r patient,
        h.polite.of_fixed _ (gatherStatistics_field fixed {} s.ping.rts r fun _ _ => rfl)⟩
  | error errno queue =>
      obtain ⟨r, hr, rfl⟩ := Option.map_eq_some_iff.mp hstep
      have hsame := Family.receiveErrorMsg_field fixed (fun _ _ => rfl) (fun _ => rfl) hr
      have hkept := Family.receiveErrorMsg_field (·.interval) (fun _ _ => rfl) (fun _ => rfl) hr
      refine ⟨h.bounded.of_fixed hsame ?_ ?_, h.polite.of_fixed _ hsame⟩
      · rw [hkept]
        exact h.bounded.interval
      · rw [hkept]
        exact h.bounded.group

end Steps

/-! ## The limits at the start -/

theorem parseArg_frame {rts rts' : PingRts} {arg : Arg} (h : parseArg rts arg = some rts') :
    rts'.uid = rts.uid ∧ rts'.multicast = rts.multicast := by
  cases arg with
  | interval ms =>
      rw [parseArg] at h
      split at h
      · cases h
      · cases h
        exact ⟨rfl, rfl⟩
  | preload n =>
      rw [parseArg] at h
      split at h
      · cases h
      split at h
      · cases h
      · cases h
        exact ⟨rfl, rfl⟩
  | flood | adaptive | broadcast =>
      cases h
      exact ⟨rfl, rfl⟩

theorem options_frame {settings rts : PingRts} {args : List Arg}
    (h : options.final (mainDefaults settings) args = some rts) :
    rts.uid = settings.uid ∧ rts.multicast = false := by
  have hrun : options.Always (fun rts => rts.uid = settings.uid ∧ rts.multicast = false)
      (mainDefaults settings) args := by
    refine Machine.Always.of_invariant (G := fun _ _ => True) ⟨rfl, rfl⟩ ?_
      (Machine.guarded_of_forall fun _ _ => trivial)
    rintro s arg t ⟨huid, hflag⟩ - hstep
    obtain ⟨huid', hflag'⟩ := parseArg_frame hstep
    exact ⟨huid'.trans huid, hflag'.trans hflag⟩
  exact hrun.final h

/-- What the check leaves to `setup`: the flag is set for the groups, and a user who
sets it has asked for the longer interval. -/
theorem checkGroup_cases {rts rts' : PingRts} {group : Bool} {pmtudisc : Int}
    (h : checkGroup rts group pmtudisc = some rts') (user : rts.uid ≠ 0) :
    (group = false ∧ rts' = rts) ∨
      (group = true ∧ MIN_MULTICAST_USER_INTERVAL_MS ≤ rts.interval ∧
        rts' = { rts with multicast := true }) := by
  cases group with
  | false =>
      cases h
      exact .inl ⟨rfl, rfl⟩
  | true =>
      rw [checkGroup, if_pos rfl] at h
      split at h
      · cases h
      next hshort =>
        split at h
        · cases h
        · cases h
          exact .inr ⟨rfl, Int.not_lt.mp fun hlt => hshort ⟨user, hlt⟩, rfl⟩

theorem Family.run_group {family : Family} {kernel : Kernel} {rts rts' : PingRts} {d : Destination}
    (user : rts.uid ≠ 0) (unset : rts.multicast = false)
    (h : family.run kernel rts d = some rts') :
    rts'.uid = rts.uid ∧
      (family.isMulticast rts' = true → rts'.multicast = true) ∧
      (family.isBroadcast kernel rts' = true → rts'.broadcastPings = true →
        rts'.multicast = true) ∧
      (rts'.multicast = true → MIN_MULTICAST_USER_INTERVAL_MS ≤ rts'.interval) := by
  have hunset : rts.multicast ≠ true := by
    rw [unset]
    decide
  cases family with
  | inet =>
      obtain ⟨source, -, hcheck⟩ := Option.bind_eq_some_iff.mp h
      dsimp only at hcheck
      obtain ⟨hgroup, rfl⟩ | ⟨-, hinterval, rfl⟩ := checkGroup_cases hcheck user
      · obtain ⟨hpings, hmulticast⟩ := Bool.or_eq_false_iff.mp hgroup
        refine ⟨rfl, fun hset => ?_, fun _ hset => ?_, fun hset => absurd hset hunset⟩
        · exact absurd (hmulticast.symm.trans hset) Bool.false_ne_true
        · exact absurd (hpings.symm.trans hset) Bool.false_ne_true
      · exact ⟨rfl, fun _ => rfl, fun _ _ => rfl, fun _ => hinterval⟩
  | inet6 =>
      rw [Family.run, ping6Run] at h
      split at h
      · cases h
      obtain ⟨hgroup, rfl⟩ | ⟨-, hinterval, rfl⟩ := checkGroup_cases h user
      · refine ⟨rfl, fun hset => ?_, fun hset => ?_, fun hset => absurd hset hunset⟩
        · exact absurd (hgroup.symm.trans hset) Bool.false_ne_true
        · exact absurd hset Bool.false_ne_true
      · exact ⟨rfl, fun _ => rfl, fun _ _ => rfl, fun _ => hinterval⟩

/-- An ordinary user gets past `setup` with the interval asked for. -/
theorem setup_user {rts rts' : PingRts} (user : rts.uid ≠ 0) (h : setup rts = some rts') :
    MIN_USER_INTERVAL_MS ≤ rts.interval ∧ rts' = rts := by
  obtain ⟨interval, rfl | rfl, hlimit, -, rfl⟩ := setup_cases h
  · -- The interval of a flood is zero.
    exact absurd ⟨user, by decide⟩ hlimit
  · exact ⟨Int.not_lt.mp fun hlt => hlimit ⟨user, hlt⟩, rfl⟩

theorem Bounded.init {family : Family} {kernel : Kernel} {settings rts : PingRts}
    {args : List Arg} {d : Destination} (user : settings.uid ≠ 0)
    (h : accepted family kernel settings args d = some rts)
    (routed : d.optSourceroute = true → family.isBroadcast kernel rts = true →
      rts.broadcastPings = false → MIN_MULTICAST_USER_INTERVAL_MS ≤ rts.interval) :
    Bounded family kernel d rts := by
  obtain ⟨parsed, hparsed, hrest⟩ := Option.bind_eq_some_iff.mp h
  obtain ⟨checked, hchecked, hsetup⟩ := Option.bind_eq_some_iff.mp hrest
  obtain ⟨huid, hunset⟩ := options_frame hparsed
  have hparsedUser : parsed.uid ≠ 0 := by
    rw [huid]
    exact user
  obtain ⟨hcheckedUid, hmulticast, hbroadcast, hgroup⟩ :=
    Family.run_group hparsedUser hunset hchecked
  have hcheckedUser : checked.uid ≠ 0 := by
    rw [hcheckedUid]
    exact hparsedUser
  obtain ⟨hinterval, rfl⟩ := setup_user hcheckedUser hsetup
  refine ⟨hcheckedUser, hmulticast, hbroadcast, hinterval, ?_⟩
  rintro (hflag | ⟨hroute, hdestination⟩)
  · exact hgroup hflag
  · cases hpings : rts.broadcastPings with
    | true => exact hgroup (hbroadcast hdestination hpings)
    | false => exact routed hroute hdestination hpings

/-- Whatever an ordinary user asks for, the limits hold in every run in which
adaptive mode is not led below a second towards a broadcast or multicast
destination, if a broadcast destination behind a source route is pinged with `-b` or
starts with a second or more. -/
theorem interval_limited (family : Family) (kernel : Kernel) (sock : SockType)
    (settings rts : PingRts) (args : List Arg) (d : Destination) (es : List LoopEvent)
    (user : settings.uid ≠ 0) (started : accepted family kernel settings args d = some rts)
    (routed : d.optSourceroute = true → family.isBroadcast kernel rts = true →
      rts.broadcastPings = false → MIN_MULTICAST_USER_INTERVAL_MS ≤ rts.interval)
    (refusing : (machine family sock).Guarded (Refusing family kernel d)
      { ping := { rts := rts } } es)
    (patient : (machine family sock).Guarded (Patient family kernel d)
      { ping := { rts := rts } } es) :
    (machine family sock).Always (Polite family kernel) { ping := { rts := rts } } es := by
  have hrun :
      (machine family sock).Always (Kept family kernel d) { ping := { rts := rts } } es := by
    refine Machine.Always.of_invariant ⟨Bounded.init user started routed, List.forall_mem_nil _⟩ ?_
      (refusing.and patient)
    rintro s e t h ⟨hrefusing, hpatient⟩ hstep
    exact h.step hrefusing hpatient hstep
  exact hrun.mono fun s h => h.polite

/-! ## Multicast in adaptive mode -/

/-- A host whose only broadcast address is the limited one. -/
def exampleKernel : Kernel where
  broadcast a := a == 0xffffffff
  reachable _ := true
  reachable6 _ := true
  sourceFor _ := 0xc0000201

/-- User 1000, with timestamps in the probes. -/
def exampleUser : PingRts := { uid := 1000, timing := true }

/-- 224.0.0.1. -/
def allHosts : Destination := { whereto := 0xe0000001 }

def sendAt (seconds : Int) : LoopEvent :=
  .call { clock := { tvSec := seconds }, attempts := [{ ret := 0 }] }

/-- A probe, its reply after the given time, and another probe. -/
def answeredAfter (usec : Int) : List LoopEvent :=
  [sendAt 1, .reply { cc := 64, seq := 1, csfailed := false, tv := { tvUsec := usec } }, sendAt 3]

theorem interval_limited_slow : ∃ rts,
    accepted .inet exampleKernel exampleUser [.adaptive] allHosts = some rts ∧
      (machine .inet .dgram).Always (Polite .inet exampleKernel) { ping := { rts := rts } }
        (answeredAfter 1200000) :=
  ⟨_, rfl, interval_limited .inet exampleKernel .dgram exampleUser _ [.adaptive] allHosts
    (answeredAfter 1200000) (by decide) rfl (fun hroute => absurd hroute Bool.false_ne_true)
    (by decide +kernel)
    (by decide +kernel)⟩

/-- After a reply within a millisecond the next probe is sent to the group at an
interval of 2 ms. -/
theorem interval_limited_fails_on_multicast : ∃ rts,
    accepted .inet exampleKernel exampleUser [.adaptive] allHosts = some rts ∧
      (machine .inet .dgram).Guarded (Refusing .inet exampleKernel allHosts)
        { ping := { rts := rts } } (answeredAfter 1000) ∧
      ¬(machine .inet .dgram).Always (Polite .inet exampleKernel) { ping := { rts := rts } }
        (answeredAfter 1000) :=
  ⟨_, rfl, by decide +kernel, by decide +kernel⟩

end Coping.Interval
