import Coping.Ping.SendLoop
import Coping.Ping.Setup
import Coping.Verification.Interval
import Coping.Verification.SendLoop

/-!
# The interval of adaptive mode

`update_interval` computes in `int`, from a 64-bit average, from the interval itself,
and from an addend that every queue overflow makes larger. `Roomy` is the bound on a
step that keeps all of it in range; no interval is negative then. `Ends` says that the
loop around `pinger` comes to a positive waiting time when the calls are `Quick`: with
a negative interval it would not.
-/

namespace Coping.AdaptiveInterval

open CInt SendLoop

/-! ## Arithmetic in range -/

def InInt (x : Int) : Prop := -2147483648 ≤ x ∧ x ≤ intMax

/-- `est` of `update_interval`, not yet an `int`. -/
def est (rtt : UInt64) (interval : Int) : Int :=
  if rtt ≠ 0 then (rtt / 8).toNat else interval * 1000

/-- The arithmetic of `update_interval` and its conversion to `int`. -/
structure UpdateFits (rtt : UInt64) (rttAddend interval : Int) : Prop where
  est : InInt (est rtt interval)
  added : InInt (AdaptiveInterval.est rtt interval + rttAddend)
  rounded : InInt (AdaptiveInterval.est rtt interval + rttAddend + 500)

/-- What a queue overflow adds to `rtt_addend`. -/
def slowdown (rtt : UInt64) : Int := if rtt < 8 * 50000 then ((rtt / 8).toNat : Int) else 50000

/-- All `int` arithmetic of `update_interval` and of `rtt_addend` in a step of adaptive
mode. -/
def InRange (s : LoopState) : LoopEvent → Prop
  | .call c => (∃ a ∈ c.attempts, a.overflows) →
      InInt (s.ping.rts.rttAddend + slowdown s.ping.rts.rtt) ∧
        UpdateFits s.ping.rts.rtt (s.ping.rts.rttAddend + slowdown s.ping.rts.rtt)
          s.ping.rts.interval
  | .reply r => ∀ time ∈ measured s.ping.rts r,
      UpdateFits (smoothedRtt s.ping.rts.rtt time) s.ping.rts.rttAddend s.ping.rts.interval
  | .error _ _ => True

/-! ## The bounds -/

/-- The weighted mean of the average and one more triptime, or, as long as there was no
positive triptime, the interval in microseconds. -/
def mean (rtt : UInt64) (time interval : Int) : Int :=
  if rtt = 0 ∧ time = 0 then interval * 1000
  else if rtt = 0 then time
  else ((rtt.toNat : Int) - (rtt.toNat : Int) / 8 + time) / 8

/-- The mean, or at a queue overflow the average and a part of it, at most 50 ms, leaves
room for the addend below 2147483147 microseconds. -/
def Roomy (s : LoopState) : LoopEvent → Prop
  | .call c => (∃ a ∈ c.attempts, a.overflows) →
      (if s.ping.rts.rtt = 0 then s.ping.rts.interval * 1000
        else (s.ping.rts.rtt.toNat : Int) / 8 + min ((s.ping.rts.rtt.toNat : Int) / 8) 50000) +
        s.ping.rts.rttAddend ≤ 2147483147
  | .reply r => ∀ time ∈ measured s.ping.rts r,
      mean s.ping.rts.rtt time s.ping.rts.interval + s.ping.rts.rttAddend ≤ 2147483147
  | .error _ _ => True

instance (s : LoopState) : ∀ e, Decidable (Roomy s e)
  | .call _ => inferInstanceAs (Decidable ((∃ a ∈ _, _) → _))
  | .reply r => inferInstanceAs (Decidable (∀ time ∈ measured s.ping.rts r, _))
  | .error _ _ => isTrue trivial

/-- What the bounds keep. -/
structure Sane (rts : PingRts) : Prop where
  adaptive : rts.optAdaptive = true
  interval : 0 ≤ rts.interval ∧ rts.interval ≤ intMax
  rtt : rts.rtt.toNat / 8 ≤ 2147483647
  rttAddend : 0 ≤ rts.rttAddend

/-- The new average does not vanish once there was a positive triptime. -/
theorem est_smoothedRtt {rtt : UInt64} {time : Int} (small : rtt.toNat / 8 ≤ 2147483647)
    (nonneg : 0 ≤ time) (le : time ≤ 2147999999) (interval : Int) :
    est (smoothedRtt rtt time) interval = mean rtt time interval := by
  have hsmoothed := smoothedRtt_toNat (small.trans (by decide)) nonneg le
  have haverage := average_toNat (smoothedRtt rtt time)
  have hzero : smoothedRtt rtt time = 0 ↔ rtt = 0 ∧ time = 0 := by
    rw [← toNat_eq_zero]
    split at hsmoothed
    next hnone =>
      constructor
      · intro hvanished
        exact ⟨hnone, by omega⟩
      · rintro ⟨-, hinstant⟩
        omega
    next hsome =>
      have hrtt := mt toNat_eq_zero.mp hsome
      constructor
      · intro hvanished
        omega
      · intro hstart
        exact absurd hstart.1 hsome
  rw [est, mean]
  by_cases hnone : rtt = 0 ∧ time = 0
  · rw [if_neg (not_not.mpr (hzero.mpr hnone)), if_pos hnone]
  · rw [if_pos (hzero.not.mpr hnone), if_neg hnone, haverage]
    split at hsmoothed
    · rw [if_pos ‹_›]
      omega
    · rw [if_neg ‹_›]
      omega

/-- Nothing is negative, so only the last sum can be too large. -/
theorem updateFits_iff {rtt : UInt64} {rttAddend interval : Int} (nonneg : 0 ≤ interval)
    (addend : 0 ≤ rttAddend) :
    UpdateFits rtt rttAddend interval ↔ est rtt interval + rttAddend ≤ 2147483147 := by
  have hest : 0 ≤ est rtt interval := by
    rw [est]
    split <;> omega
  constructor
  · intro h
    have hrounded := h.rounded.2
    rw [intMax] at hrounded
    omega
  · intro h
    have hmax : intMax = 2147483647 := rfl
    exact ⟨⟨by omega, by omega⟩, ⟨by omega, by omega⟩, ⟨by omega, by omega⟩⟩

/-- A part of the average, at most 50 ms. -/
theorem slowdown_eq (rtt : UInt64) : slowdown rtt = min ((rtt.toNat : Int) / 8) 50000 := by
  have haverage := average_toNat rtt
  have hsmall : rtt < 8 * 50000 ↔ rtt.toNat < 400000 := Iff.rfl
  rw [slowdown]
  split
  next hlt =>
    rw [hsmall] at hlt
    omega
  next hge =>
    rw [hsmall] at hge
    omega

theorem measured_range {rts : PingRts} {r : Reply} {time : Int}
    (h : measured rts r = some time) : 0 ≤ time ∧ time ≤ 2147999999 := by
  rw [measured] at h
  split at h
  · cases h
    exact ⟨triptime_nonneg _ _, triptime_le _ _⟩
  · cases h

/-! ## The interval along a run -/

/-- With the arithmetic in range the interval is the rounded sum in milliseconds. -/
theorem nextInterval_range {rtt : UInt64} {rttAddend interval : Int}
    (fits : UpdateFits rtt rttAddend interval) (nonneg : 0 ≤ interval) (addend : 0 ≤ rttAddend)
    (uid : Nat) :
    0 ≤ nextInterval uid rtt rttAddend interval ∧
      nextInterval uid rtt rttAddend interval ≤ intMax := by
  have hest : 0 ≤ est rtt interval := by
    rw [est]
    split <;> omega
  have hwrapped : (if rtt ≠ 0 then toInt32 (rtt / 8).toNat else toInt32 (interval * 1000)) =
      est rtt interval := by
    have hrange := toInt32_of_range fits.est.1 fits.est.2
    rw [← hrange, est]
    split <;> rfl
  have hmax : intMax = 2147483647 := rfl
  have hupper := fits.rounded.2
  simp only [nextInterval, hwrapped, toInt32_of_range fits.added.1 fits.added.2,
    toInt32_of_range fits.rounded.1 fits.rounded.2]
  rw [Int.tdiv_eq_ediv_of_nonneg (by omega)]
  split
  · decide
  · omega

/-! ## Steps -/

section Steps

variable {family : Family} {sock : SockType} {s t : LoopState}

/-- In a sane state the bounds are exact. -/
theorem Sane.inRange_iff (h : Sane s.ping.rts) (e : LoopEvent) : Roomy s e ↔ InRange s e := by
  cases e with
  | call c =>
      apply imp_congr_right
      intro _
      have hslowdown := slowdown_eq s.ping.rts.rtt
      have haddend := h.rttAddend
      have haverage := average_toNat s.ping.rts.rtt
      have hmax : intMax = 2147483647 := rfl
      have hnonneg := h.interval.1
      rw [updateFits_iff hnonneg (by omega), est, InInt]
      by_cases hzero : s.ping.rts.rtt = 0
      · rw [if_pos hzero, if_neg (not_not.mpr hzero)]
        rw [hzero] at hslowdown ⊢
        change slowdown 0 = 0 at hslowdown
        omega
      · rw [if_neg hzero, if_pos hzero]
        omega
  | reply r =>
      apply forall₂_congr
      intro time hmeasured
      obtain ⟨hnonneg, hle⟩ := measured_range hmeasured
      rw [updateFits_iff h.interval.1 h.rttAddend, est_smoothedRtt h.rtt hnonneg hle]
  | error errno queue => exact Iff.rfl

theorem Sane.reply {rts : PingRts} (h : Sane rts) (r : Reply)
    (fits : ∀ time ∈ measured rts r, UpdateFits (smoothedRtt rts.rtt time) rts.rttAddend
      rts.interval) : Sane (gatherStatistics rts r) := by
  have haddend : (gatherStatistics rts r).rttAddend = rts.rttAddend :=
    gatherStatistics_field (·.rttAddend) {} rts r fun _ _ => rfl
  have hadaptive : (gatherStatistics rts r).optAdaptive = rts.optAdaptive :=
    gatherStatistics_field (·.optAdaptive) {} rts r fun _ _ => rfl
  constructor
  · rw [hadaptive]
    exact h.adaptive
  · obtain hkept | ⟨-, time, hmeasured, hnext⟩ := Interval.gatherStatistics_interval rts r
    · rw [hkept]
      exact h.interval
    · rw [hnext]
      exact nextInterval_range (fits time hmeasured) h.interval.1 h.rttAddend rts.uid
  · rw [gatherStatistics_rtt]
    cases hmeasured : measured rts r with
    | none => exact h.rtt
    | some time =>
        have hest := (fits time hmeasured).est.2
        have haverage := average_toNat (smoothedRtt rts.rtt time)
        have hmax : intMax = 2147483647 := rfl
        rw [est] at hest
        change (smoothedRtt rts.rtt time).toNat / 8 ≤ _
        split at hest
        · omega
        next hzero =>
          rw [not_not.mp hzero]
          decide
  · rw [haddend]
    exact h.rttAddend

theorem Sane.call {p : PingState} (h : Sane p.rts) {c : PingerCall} {r : Pinged}
    (fits : (∃ a ∈ c.attempts, a.overflows) →
      InInt (p.rts.rttAddend + slowdown p.rts.rtt) ∧
        UpdateFits p.rts.rtt (p.rts.rttAddend + slowdown p.rts.rtt) p.rts.interval)
    (hr : pinger family sock p c = some r) : Sane r.state.rts := by
  have hslowdown := slowdown_eq p.rts.rtt
  have hnonneg := h.rttAddend
  have hslowed : (∃ a ∈ c.attempts, a.overflows) → slowedAddend p.rts.rtt p.rts.rttAddend =
      p.rts.rttAddend + slowdown p.rts.rtt := fun hfull =>
    toInt32_of_range (fits hfull).1.1 (fits hfull).1.2
  constructor
  · rw [pinger_field (·.optAdaptive) {} hr]
    exact h.adaptive
  · obtain hkept | ⟨-, hnext⟩ := pinger_interval hr
    · rw [hkept]
      exact h.interval
    by_cases hsends : r.sends = []
    · obtain ⟨-, hstate, -⟩ | ⟨-, -, -, -, -, hsent⟩ := pinger_cases hr
      · rw [hstate]
        exact h.interval
      · exact absurd hsends hsent
    obtain ⟨a, hmem, -, hfits⟩ := pinger_answer hr hsends
    by_cases hfull : a.overflows
    · have hoverflow : ∃ a ∈ c.attempts, a.overflows := ⟨a, hmem, hfull⟩
      rw [hnext]
      change 0 ≤ nextInterval p.rts.uid p.rts.rtt (slowedAddend p.rts.rtt p.rts.rttAddend)
        p.rts.interval ∧ nextInterval p.rts.uid p.rts.rtt
          (slowedAddend p.rts.rtt p.rts.rttAddend) p.rts.interval ≤ intMax
      rw [hslowed hoverflow]
      exact nextInterval_range (fits hoverflow).2 h.interval.1 (by omega) p.rts.uid
    · rw [hfits hfull]
      exact h.interval
  · rw [pinger_field (·.rtt) {} hr]
    exact h.rtt
  · obtain ⟨hstate, -⟩ | ⟨tokens, -, hsettled⟩ := pinger_settled hr
    · rw [hstate]
      exact hnonneg
    · obtain hkept | ⟨hoverflow, hnext⟩ := hsettled.addend
      · rw [hkept]
        exact hnonneg
      · rw [hnext]
        change 0 ≤ slowedAddend p.rts.rtt p.rts.rttAddend
        rw [hslowed hoverflow]
        omega

theorem Sane.step {e : LoopEvent} (h : Sane s.ping.rts) (fits : InRange s e)
    (hstep : (mainLoop family sock).step s e = some t) : Sane t.ping.rts := by
  cases e with
  | call c =>
      obtain ⟨pass, hpass, rfl⟩ := Option.map_eq_some_iff.mp hstep
      obtain ⟨r, hr, rfl⟩ := Option.map_eq_some_iff.mp hpass
      exact h.call fits hr
  | reply r =>
      cases hstep
      exact h.reply r fits
  | error errno queue =>
      obtain ⟨r, hr, rfl⟩ := Option.map_eq_some_iff.mp hstep
      have hsame : ∀ {α : Type} (field : PingRts → α),
          (∀ rts seq, field (acknowledge rts seq) = field rts) →
          (∀ rts, field (countError rts) = field rts) → field r.rts = field s.ping.rts :=
        fun field acknowledged counted =>
          Family.receiveErrorMsg_field field acknowledged counted hr
      constructor
      · exact (hsame (·.optAdaptive) (fun _ _ => rfl) fun _ => rfl).trans h.adaptive
      · have hinterval := hsame (·.interval) (fun _ _ => rfl) fun _ => rfl
        change 0 ≤ r.rts.interval ∧ r.rts.interval ≤ intMax
        rw [hinterval]
        exact h.interval
      · have hrtt := hsame (·.rtt) (fun _ _ => rfl) fun _ => rfl
        change r.rts.rtt.toNat / 8 ≤ _
        rw [hrtt]
        exact h.rtt
      · have haddend := hsame (·.rttAddend) (fun _ _ => rfl) fun _ => rfl
        change 0 ≤ r.rts.rttAddend
        rw [haddend]
        exact h.rttAddend

/-- What an event asks of the clock. -/
def Punctual (s : LoopState) : LoopEvent → Prop
  | .call c => Timely s.ping c
  | _ => True

theorem good_step {e : LoopEvent} (h : Good s.ping) (sane : Sane t.ping.rts)
    (punctual : Punctual s e) (hstep : (mainLoop family sock).step s e = some t) :
    Good t.ping := by
  cases e with
  | call c =>
      obtain ⟨pass, hpass, rfl⟩ := Option.map_eq_some_iff.mp hstep
      obtain ⟨r, hr, rfl⟩ := Option.map_eq_some_iff.mp hpass
      refine ⟨sane.interval, ?_, h.call_tokens punctual hr⟩
      change 1 ≤ r.state.rts.preload ∧ r.state.rts.preload ≤ 65536
      rw [Rate.pinger_preload hr]
      exact h.preload
  | reply r =>
      cases hstep
      refine ⟨sane.interval, ?_, h.tokens⟩
      have hpreload := gatherStatistics_field (·.preload) {} s.ping.rts r fun _ _ => rfl
      change 1 ≤ (gatherStatistics s.ping.rts r).preload ∧ _ ≤ (65536 : Int)
      rw [hpreload]
      exact h.preload
  | error errno queue =>
      obtain ⟨r, hr, rfl⟩ := Option.map_eq_some_iff.mp hstep
      refine ⟨sane.interval, ?_, h.tokens⟩
      have hpreload := Family.receiveErrorMsg_field (·.preload) (fun _ _ => rfl) (fun _ => rfl) hr
      change 1 ≤ r.rts.preload ∧ r.rts.preload ≤ 65536
      rw [hpreload]
      exact h.preload

end Steps

/-! ## The start -/

/-- What the options and `setup` leave of the start. -/
structure Started (rts : PingRts) : Prop where
  interval : 0 ≤ rts.interval ∧ rts.interval ≤ intMax
  preload : 1 ≤ rts.preload ∧ rts.preload ≤ 65536
  rtt : rts.rtt = 0
  rttAddend : rts.rttAddend = 0

theorem Started.parseArg {rts rts' : PingRts} {arg : Arg} (h : Started rts)
    (hparse : parseArg rts arg = some rts') : Started rts' := by
  obtain ⟨hinterval, hpreload, hrtt, haddend⟩ := h
  cases arg with
  | interval ms =>
      rw [Coping.parseArg] at hparse
      split at hparse
      · cases hparse
      · cases hparse
        exact ⟨⟨by dsimp only; omega, by dsimp only; omega⟩, hpreload, hrtt, haddend⟩
  | preload n =>
      rw [Coping.parseArg] at hparse
      split at hparse
      · cases hparse
      next hrange =>
      split at hparse
      · cases hparse
      · cases hparse
        have hmax : (MAX_DUP_CHK : Int) = 65536 := rfl
        exact ⟨hinterval, ⟨by dsimp only; omega, by dsimp only; omega⟩, hrtt, haddend⟩
  | flood | adaptive | broadcast =>
      cases hparse
      exact ⟨hinterval, hpreload, hrtt, haddend⟩

theorem Started.run {family : Family} {kernel : Kernel} {rts rts' : PingRts} {d : Destination}
    (h : Started rts) (hrun : family.run kernel rts d = some rts') : Started rts' := by
  have hsame := Family.run_field
    (fun rts => (rts.interval, rts.preload, rts.rtt, rts.rttAddend))
    (fun _ _ => rfl) (fun _ _ => rfl) (fun _ _ => rfl) hrun
  simp only [Prod.mk.injEq] at hsame
  obtain ⟨hinterval, hpreload, hrtt, haddend⟩ := hsame
  constructor
  · rw [hinterval]
    exact h.interval
  · rw [hpreload]
    exact h.preload
  · exact hrtt.trans h.rtt
  · exact haddend.trans h.rttAddend

theorem Started.setup {rts rts' : PingRts} (h : Started rts) (hsetup : setup rts = some rts') :
    Started rts' := by
  obtain ⟨interval, hinterval, -, -, rfl⟩ := setup_cases hsetup
  have hbounds : 0 ≤ interval ∧ interval ≤ intMax := by
    rcases hinterval with rfl | rfl
    · decide
    · exact h.interval
  exact ⟨hbounds, h.preload, h.rtt, h.rttAddend⟩

theorem started_of_accepted {family : Family} {kernel : Kernel} {settings : PingRts}
    {args : List Arg} {d : Destination} {rts : PingRts}
    (h : accepted family kernel settings args d = some rts) : Started rts := by
  obtain ⟨parsed, hparsed, hrest⟩ := Option.bind_eq_some_iff.mp h
  obtain ⟨checked, hchecked, hsetup⟩ := Option.bind_eq_some_iff.mp hrest
  have hstart : Started (mainDefaults settings.start) :=
    ⟨show 0 ≤ (1000 : Int) ∧ (1000 : Int) ≤ intMax by decide,
      show 1 ≤ (1 : Int) ∧ (1 : Int) ≤ 65536 by decide, rfl, rfl⟩
  have hoptions : options.Always Started (mainDefaults settings.start) args :=
    Machine.Always.of_invariant (G := fun _ _ => True) hstart
      (fun _ _ _ started _ hstep => started.parseArg hstep)
      (Machine.guarded_of_forall fun _ _ => trivial)
  exact ((hoptions.final hparsed).run hchecked).setup hsetup

/-! ## Every run -/

/-- In adaptive mode, from every start that the options and `setup` accept: the arithmetic
of a run is in range exactly when its steps are roomy; then no interval is negative, and
where the clock runs the loop around `pinger` comes to an end in every state. -/
theorem adaptive_interval (family : Family) (sock : SockType) (kernel : Kernel)
    (settings : PingRts) (args : List Arg) (d : Destination) (rts : PingRts)
    (h : accepted family kernel settings args d = some rts) (adaptive : rts.optAdaptive = true)
    (es : List LoopEvent) :
    ((mainLoop family sock).Guarded Roomy { ping := { rts := rts } } es ↔
      (mainLoop family sock).Guarded InRange { ping := { rts := rts } } es) ∧
    ((mainLoop family sock).Guarded Roomy { ping := { rts := rts } } es →
      (mainLoop family sock).Always (fun s => 0 ≤ s.ping.rts.interval)
        { ping := { rts := rts } } es ∧
      ((mainLoop family sock).Guarded Punctual { ping := { rts := rts } } es →
        (mainLoop family sock).Always (Ends family sock) { ping := { rts := rts } } es)) := by
  have hstarted := started_of_accepted h
  have hsane : Sane rts := by
    refine ⟨adaptive, hstarted.interval, ?_, ?_⟩
    · rw [hstarted.rtt]
      decide
    · rw [hstarted.rttAddend]
  have hgood : Good { rts := rts } :=
    ⟨hstarted.interval, hstarted.preload, show 0 ≤ (0 : Int) ∧ (0 : Int) ≤ intMax by decide⟩
  have hstep : ∀ s e t, Sane s.ping.rts → Roomy s e →
      (mainLoop family sock).step s e = some t → Sane t.ping.rts :=
    fun s e t sane roomy step => sane.step ((sane.inRange_iff e).mp roomy) step
  refine ⟨Machine.guarded_iff (I := fun s => Sane s.ping.rts) hsane hstep
    fun s e sane => sane.inRange_iff e, ?_⟩
  intro roomy
  constructor
  · exact (Machine.Always.of_invariant (I := fun s => Sane s.ping.rts) hsane hstep roomy).mono
      fun s sane => sane.interval.1
  · intro punctual
    refine (Machine.Always.of_invariant (I := fun s => Sane s.ping.rts ∧ Good s.ping)
      ⟨hsane, hgood⟩ ?_ (roomy.and punctual)).mono fun s sound => sendLoop_ends sound.2
    intro s e t hsound hguard step
    have hsane := hstep s e t hsound.1 hguard.1 step
    exact ⟨hsane, good_step hsound.2 hsane hguard.2 step⟩

/-- The super-user, with packets that are timed. -/
def superUser : PingRts := { timing := true }

/-- 192.0.2.1. -/
def host : Destination := { whereto := 0xc0000201 }

/-- A probe and its reply, stamped so as to have taken the given time. -/
def answered (tv : Timeval) : List LoopEvent :=
  [.call { clock := { tvSec := 1 }, attempts := [{ ret := 0 }] },
    .reply { cc := 64, seq := 1, csfailed := false, tv := tv }]

/-- A reply within a millisecond sets the interval to it. -/
theorem adaptive_interval_quick : ∃ rts,
    accepted .inet Interval.exampleKernel superUser [.adaptive] host = some rts ∧
      (mainLoop .inet .dgram).Always (fun s => 0 ≤ s.ping.rts.interval)
        { ping := { rts := rts } } (answered { tvUsec := 1000 }) :=
  ⟨_, rfl, ((adaptive_interval .inet .dgram Interval.exampleKernel superUser [.adaptive] host
    _ rfl rfl (answered { tvUsec := 1000 })).2 (by decide +kernel)).1⟩

/-- A forged timestamp, 2147.999999 s old, makes the interval negative. -/
theorem adaptive_interval_negative :
    ¬ ∀ (family : Family) (sock : SockType) (kernel : Kernel) (settings : PingRts)
      (args : List Arg) (d : Destination) (rts : PingRts),
      accepted family kernel settings args d = some rts → rts.optAdaptive = true →
      ∀ es : List LoopEvent,
        (mainLoop family sock).Guarded InRange { ping := { rts := rts } } es ∧
          (mainLoop family sock).Always (fun s => 0 ≤ s.ping.rts.interval ∧ Ends family sock s)
            { ping := { rts := rts } } es := by
  intro h
  have hrun := h .inet .dgram Interval.exampleKernel superUser [.adaptive] host _ rfl rfl
    (answered { tvSec := 2147, tvUsec := 999999 })
  have hinterval := hrun.2.mono fun s hs => hs.1
  exact absurd hinterval (by decide +kernel)

end Coping.AdaptiveInterval
