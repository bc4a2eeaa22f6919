import Mathlib.Data.Int.Order.Basic
import Coping.Library.Machine
import Coping.Ping.Basic

/-!
# Probes in flight

Runs of `advance_ntransmitted` and `acknowledge`. Probe numbers are unbounded;
the program sees their low 16 bits only. `Flight` keeps, beside the runtime state,
the probe numbers that were really acknowledged, each with the number of probes
transmitted at that time.

As long as no more than `0x7FFF` probes are missing, the 16-bit bookkeeping is
exact across all wraps. Beyond that the program wants to give up the acknowledged
number. The second half shows when it does: only at a probe number that is
`0xFFFF` modulo `0x10000`, reached while `acked` is `0x7FFF`.
-/

namespace Coping.InFlight

open CInt

inductive Event where
  /-- A probe was transmitted. -/
  | advance
  /-- Some packet acknowledges the probe of this number. -/
  | acknowledge (probe : Nat)

/-- The runtime state and the acknowledgements so far, newest first. -/
structure Flight where
  rts : PingRts := {}
  acks : List (Nat × Nat) := []

namespace Flight

def step (s : Flight) : Event → Flight
  | .advance => { s with rts := advanceNtransmitted s.rts }
  | .acknowledge k =>
      { rts := acknowledge s.rts (low16 k), acks := (s.rts.ntransmitted, k) :: s.acks }

/-- The highest acknowledged probe number, zero before the first. -/
def highest (s : Flight) : Nat := (s.acks.map Prod.snd).foldr max 0

/-- The largest number of probes outstanding at an acknowledgement, the
acknowledged one included, and `-1` before the first. -/
def widest (s : Flight) : Int := (s.acks.map fun a => (a.1 : Int) - a.2 + 1).foldr max (-1)

@[simp] theorem highest_acknowledge (s : Flight) (k : Nat) :
    (s.step (.acknowledge k)).highest = max k s.highest := rfl

@[simp] theorem widest_acknowledge (s : Flight) (k : Nat) :
    (s.step (.acknowledge k)).widest = max ((s.rts.ntransmitted : Int) - k + 1) s.widest := rfl

@[simp] theorem highest_advance (s : Flight) : (s.step .advance).highest = s.highest := rfl

@[simp] theorem widest_advance (s : Flight) : (s.step .advance).widest = s.widest := rfl

end Flight

def machine : Machine Flight Event := Machine.ofTotal Flight.step

/-- Only transmitted probes are acknowledged. -/
def Transmitted (s : Flight) : Event → Prop
  | .advance => True
  | .acknowledge k => 1 ≤ k ∧ k ≤ s.rts.ntransmitted

/-- Only probes among the last `0x8000` transmitted ones are acknowledged. -/
def Recent (s : Flight) : Event → Prop
  | .advance => True
  | .acknowledge k => 1 ≤ k ∧ k ≤ s.rts.ntransmitted ∧ s.rts.ntransmitted - k ≤ 0x7FFF

instance (s : Flight) (e : Event) : Decidable (Transmitted s e) := by
  cases e <;> unfold Transmitted <;> infer_instance

instance (s : Flight) (e : Event) : Decidable (Recent s e) := by
  cases e <;> unfold Recent <;> infer_instance

/-! ## Exact bookkeeping inside the window -/

/-- Fewer than half of the sequence numbers are missing. -/
def Close (s : Flight) : Prop := s.rts.ntransmitted - s.highest ≤ 0x7FFF

instance (s : Flight) : Decidable (Close s) := by unfold Close; infer_instance

/-- What the 16-bit fields stand for. -/
structure Exact (s : Flight) : Prop where
  bounded : s.highest ≤ s.rts.ntransmitted
  acked : s.rts.acked.toNat = s.highest % 65536
  pipesize : s.rts.pipesize = s.widest

theorem Exact.init : Exact {} := ⟨by decide, by decide, by decide⟩

/-- A send keeps `acked`: the two 16-bit numbers differ by the true distance or by
that distance less a whole cycle. -/
theorem Exact.advance {s : Flight} (h : Exact s) (close : Close (s.step .advance)) :
    Exact (s.step .advance) := by
  refine ⟨h.bounded.trans (Nat.le_succ _), ?_, h.pipesize⟩
  have hacked := h.acked
  have hbound := h.bounded
  have hnear : s.rts.ntransmitted + 1 - s.highest ≤ 0x7FFF := close
  change (advanceNtransmitted s.rts).acked.toNat = s.highest % 65536
  rw [advanceNtransmitted_acked, if_neg (by omega)]
  exact hacked

theorem Exact.acknowledge {s : Flight} {k : Nat} (h : Exact s) (close : Close s)
    (recent : Recent s (.acknowledge k)) : Exact (s.step (.acknowledge k)) := by
  obtain ⟨-, hsent, hrecent⟩ := recent
  have hacked := h.acked
  have hbound := h.bounded
  have hnear : s.rts.ntransmitted - s.highest ≤ 0x7FFF := close
  have hlag : lag s.rts (low16 k) = (s.rts.ntransmitted : Int) - k := by
    rw [lag_low16]
    omega
  -- The signed 16-bit difference orders the probe numbers themselves.
  have hnewer : toInt16 (((low16 k).toNat : Int) - s.rts.acked.toNat) = (k : Int) - s.highest := by
    rw [low16_toNat, hacked, ← toInt16_emod]
    have hmod : (((k % 65536 : Nat) : Int) - ((s.highest % 65536 : Nat) : Int)) % 65536 =
        ((k : Int) - s.highest) % 65536 := by omega
    rw [hmod, toInt16_emod]
    exact toInt16_of_range (by omega) (by omega)
  refine ⟨?_, ?_, ?_⟩
  · exact max_le hsent hbound
  · change (Coping.acknowledge s.rts (low16 k)).acked.toNat = max k s.highest % 65536
    rw [acknowledge_acked, hlag, hnewer]
    by_cases newer : s.highest < k
    · rw [if_pos ⟨by omega, .inl (by omega)⟩, low16_toNat, max_eq_left newer.le]
    · rw [if_neg (by omega), hacked, max_eq_right (not_lt.mp newer)]
  · change (Coping.acknowledge s.rts (low16 k)).pipesize = _
    rw [acknowledge_pipesize, hlag, if_pos (by omega), h.pipesize, Flight.widest_acknowledge]
    exact max_comm s.widest ((s.rts.ntransmitted : Int) - k + 1)

theorem Exact.inFlight {s : Flight} (h : Exact s) (close : Close s) :
    Coping.inFlight s.rts = (s.rts.ntransmitted : Int) - s.highest := by
  have hacked := h.acked
  have hbound := h.bounded
  have hnear : s.rts.ntransmitted - s.highest ≤ 0x7FFF := close
  have hlag : lag s.rts s.rts.acked = (s.rts.ntransmitted : Int) - s.highest := by
    rw [lag, hacked]
    omega
  rw [inFlight_eq, hlag, if_pos (by omega)]

/-- While no more than `0x7FFF` probes are missing, `acked` is the highest
acknowledged probe, `in_flight` counts the probes after it, and `pipesize` is the
largest distance at which an acknowledgement arrived. -/
theorem inFlight_exact (es : List Event) (recent : machine.Guarded Recent {} es)
    (close : machine.Always Close {} es) :
    machine.Always (fun s => s.rts.acked.toNat = s.highest % 65536 ∧
      inFlight s.rts = (s.rts.ntransmitted : Int) - s.highest ∧
      s.rts.pipesize = s.widest) {} es := by
  refine Machine.Always.of_assumption (I := Exact) Exact.init ?_ ?_ close recent
  · intro s e t hs hclose hrecent hstep hnext
    cases hstep
    cases e with
    | advance => exact hs.advance hnext
    | acknowledge k => exact hs.acknowledge hclose hrecent
  · intro s hs hclose
    exact ⟨hs.acked, hs.inFlight hclose, hs.pipesize⟩

/-- Three probes, the second acknowledged before the first, and one duplicate. -/
theorem inFlight_exact_reordered :
    machine.Always (fun s => s.rts.acked.toNat = s.highest % 65536 ∧
      inFlight s.rts = (s.rts.ntransmitted : Int) - s.highest ∧
      s.rts.pipesize = s.widest) {}
      [.advance, .advance, .acknowledge 2, .acknowledge 1, .advance, .acknowledge 2] :=
  inFlight_exact _ (by decide) (by decide)

/-! ## The invalidation of a stale number -/

/-- Some probe that no acknowledgement has passed is too old for the window. -/
def Stale (s : Flight) : Prop := s.highest + 0x7FFF < s.rts.ntransmitted

instance (s : Flight) : Decidable (Stale s) := by unfold Stale; infer_instance

/-- What the invalidation of `acked` is for. The counters of received replies and
errors are moved by other parts of the program, so any value of them is allowed. -/
structure StaleHandled (s : Flight) : Prop where
  fallback : Stale s → ∀ received errors : Nat,
    inFlight { s.rts with nreceived := received, nerrors := errors } =
      toInt32 (s.rts.ntransmitted - received - errors)
  recovery : Stale s → ∀ k received errors : Nat,
    1 ≤ k → k ≤ s.rts.ntransmitted → s.rts.ntransmitted ≤ k + 0x7FFF →
    inFlight (acknowledge { s.rts with nreceived := received, nerrors := errors } (low16 k)) =
      (s.rts.ntransmitted : Int) - k

/-- The steps that the invalidation survives. -/
def InvalidationWorks (s : Flight) : Event → Prop
  | .advance => s.rts.ntransmitted + 1 ≤ s.highest + 0x7FFF ∨
      (s.rts.ntransmitted % 0x10000 = 0xFFFE ∧ s.rts.acked = 0x7FFF)
  | .acknowledge k => s.rts.ntransmitted ≤ max k s.highest + 0x7FFF ∨
      0x7FFF < (s.rts.ntransmitted - k) % 0x10000

instance (s : Flight) (e : Event) : Decidable (InvalidationWorks s e) := by
  cases e <;> unfold InvalidationWorks <;> infer_instance

/-- Where `acked` can be, whatever was acknowledged. -/
structure Placed (s : Flight) : Prop where
  bounded : s.highest ≤ s.rts.ntransmitted
  acked : (s.rts.ntransmitted % 0x10000 : Nat) - (s.rts.acked.toNat : Int) ≤ 0x7FFF ∨
    (s.rts.ntransmitted % 0x10000 = 0xFFFF ∧ s.rts.acked.toNat = 0)

theorem Placed.init : Placed {} := ⟨by decide, by decide⟩

theorem advance_acked_toNat (s : Flight) :
    (s.step .advance).rts.acked.toNat =
      if 0x7FFF < (((s.rts.ntransmitted + 1) % 0x10000 : Nat) : Int) - s.rts.acked.toNat then
        (s.rts.ntransmitted + 2) % 0x10000 else s.rts.acked.toNat := by
  change (advanceNtransmitted s.rts).acked.toNat = _
  rw [advanceNtransmitted_acked, apply_ite UInt16.toNat, low16_toNat]
  rfl

theorem acknowledge_acked_cases (s : Flight) (k : Nat) :
    ((s.step (.acknowledge k)).rts.acked = s.rts.acked) ∨
      (lag s.rts (low16 k) ≤ 0x7FFF ∧ (s.step (.acknowledge k)).rts.acked = low16 k) := by
  change (acknowledge s.rts (low16 k)).acked = _ ∨ _ ∧ (acknowledge s.rts (low16 k)).acked = _
  rw [acknowledge_acked]
  split
  · next h => exact .inr ⟨h.1, rfl⟩
  · exact .inl rfl

theorem Placed.step {s : Flight} {e : Event} (h : Placed s) (sent : Transmitted s e) :
    Placed (s.step e) := by
  obtain ⟨hbound, hacked⟩ := h
  cases e with
  | advance =>
      refine ⟨hbound.trans (Nat.le_succ _), ?_⟩
      rw [advance_acked_toNat]
      change ((s.rts.ntransmitted + 1) % 0x10000 : Nat) - _ ≤ (0x7FFF : Int) ∨
        (s.rts.ntransmitted + 1) % 0x10000 = _ ∧ _
      split <;> omega
  | acknowledge k =>
      refine ⟨max_le sent.2 hbound, ?_⟩
      change (s.rts.ntransmitted % 0x10000 : Nat) - _ ≤ (0x7FFF : Int) ∨
        s.rts.ntransmitted % 0x10000 = _ ∧ _
      obtain hsame | ⟨hlag, hnew⟩ := acknowledge_acked_cases s k
      · rw [hsame]
        exact hacked
      · rw [lag_low16] at hlag
        rw [hnew, low16_toNat]
        omega

/-- Two values of the counters tell the fallback from a distance. -/
theorem fallback_iff (rts : PingRts) :
    (∀ received errors : Nat, inFlight { rts with nreceived := received, nerrors := errors } =
      toInt32 (rts.ntransmitted - received - errors)) ↔ 0x7FFF < lag rts rts.acked := by
  have hvalue : ∀ received errors : Nat,
      inFlight { rts with nreceived := received, nerrors := errors } =
        if lag rts rts.acked ≤ 0x7FFF then lag rts rts.acked
        else toInt32 (rts.ntransmitted - received - errors) := fun _ _ => inFlight_eq _
  simp only [hvalue]
  constructor
  · intro hall
    by_contra hnear
    have hzero := hall 0 0
    have hone := hall 1 0
    rw [if_pos (not_lt.mp hnear)] at hzero hone
    simp only [toInt32] at hzero hone
    omega
  · intro hfar received errors
    rw [if_neg (not_le.mpr hfar)]

/-- The last probe is acknowledged at its number, so `acked` must move there. -/
theorem top_of_staleHandled {s : Flight} (h : Placed s) (handled : StaleHandled s)
    (stale : Stale s) : s.rts.ntransmitted % 0x10000 = 0xFFFF ∧ s.rts.acked.toNat = 0 := by
  have hplaced := h.acked
  have hlag : lag s.rts s.rts.acked = ((s.rts.ntransmitted : Int) - s.rts.acked.toNat) % 65536 :=
    rfl
  have hfar := (fallback_iff s.rts).mp (handled.fallback stale)
  have hsent : 1 ≤ s.rts.ntransmitted := by
    simp only [Stale] at stale
    omega
  have hlast : ∀ received errors : Nat,
      inFlight { acknowledge s.rts (low16 s.rts.ntransmitted) with
        nreceived := received, nerrors := errors } = 0 := by
    intro received errors
    have := handled.recovery stale s.rts.ntransmitted received errors hsent le_rfl
      (Nat.le_add_right _ _)
    rwa [sub_self] at this
  have hmoved : (acknowledge s.rts (low16 s.rts.ntransmitted)).acked ≠ s.rts.acked := by
    intro hsame
    have hback := (fallback_iff (acknowledge s.rts (low16 s.rts.ntransmitted))).mpr (by
      rw [hsame]
      exact hfar)
    have hzero := (hback 0 0).symm.trans (hlast 0 0)
    have hone := (hback 1 0).symm.trans (hlast 1 0)
    simp only [toInt32] at hzero hone
    omega
  rw [acknowledge_acked] at hmoved
  split at hmoved
  · next hnew =>
      obtain ⟨-, hnewer⟩ := hnew
      rw [low16_toNat] at hnewer
      simp only [toInt16] at hnewer
      omega
  · exact absurd rfl hmoved

theorem staleHandled_of_top {s : Flight}
    (top : Stale s → s.rts.ntransmitted % 0x10000 = 0xFFFF ∧ s.rts.acked.toNat = 0) :
    StaleHandled s := by
  have hlag : lag s.rts s.rts.acked = ((s.rts.ntransmitted : Int) - s.rts.acked.toNat) % 65536 :=
    rfl
  refine ⟨fun stale => (fallback_iff s.rts).mpr ?_, ?_⟩
  · obtain ⟨hlow, hzero⟩ := top stale
    rw [hlag]
    omega
  · intro stale k received errors hpos hsent hrecent
    obtain ⟨hlow, hzero⟩ := top stale
    have hk : lag s.rts (low16 k) = (s.rts.ntransmitted : Int) - k := by
      rw [lag_low16]
      omega
    have hacked : (acknowledge { s.rts with nreceived := received, nerrors := errors }
        (low16 k)).acked = low16 k := by
      rw [acknowledge_acked]
      refine if_pos ⟨?_, .inr ?_⟩
      · change lag s.rts (low16 k) ≤ _
        omega
      · change _ < (s.rts.ntransmitted : Int) % 65536 - s.rts.acked.toNat
        omega
    rw [inFlight_eq, hacked]
    change (if lag s.rts (low16 k) ≤ 0x7FFF then lag s.rts (low16 k) else _) = _
    rw [if_pos (by omega), hk]

/-- Both halves of the purpose are met in one situation only: the number was given
up at `0xFFFF`, so that `acked` is 0 and far below in plain integers as well. -/
theorem staleHandled_iff {s : Flight} (h : Placed s) :
    StaleHandled s ↔
      (Stale s → s.rts.ntransmitted % 0x10000 = 0xFFFF ∧ s.rts.acked.toNat = 0) :=
  ⟨top_of_staleHandled h, staleHandled_of_top⟩

theorem staleHandled_advance_iff {s : Flight} (h : Placed s) (handled : StaleHandled s) :
    StaleHandled (s.step .advance) ↔ InvalidationWorks s .advance := by
  have hplaced := h.acked
  have hlt := s.rts.acked.toNat_lt
  have hstate := (staleHandled_iff h).mp handled
  have hconst : s.rts.acked = 0x7FFF ↔ s.rts.acked.toNat = 0x7FFF := by
    rw [← UInt16.toNat_inj]
    rfl
  rw [staleHandled_iff (h.step (e := .advance) trivial), advance_acked_toNat]
  change (s.highest + 0x7FFF < s.rts.ntransmitted + 1 →
    (s.rts.ntransmitted + 1) % 0x10000 = 0xFFFF ∧ _) ↔
    s.rts.ntransmitted + 1 ≤ s.highest + 0x7FFF ∨ _ ∧ _
  rw [hconst]
  simp only [Stale] at hstate
  split <;> omega

theorem staleHandled_acknowledge_iff {s : Flight} {k : Nat} (h : Placed s)
    (handled : StaleHandled s) (sent : Transmitted s (.acknowledge k)) :
    StaleHandled (s.step (.acknowledge k)) ↔ InvalidationWorks s (.acknowledge k) := by
  have hstate := (staleHandled_iff h).mp handled
  obtain ⟨hpos, hsent⟩ := sent
  rw [staleHandled_iff (h.step (e := .acknowledge k) ⟨hpos, hsent⟩)]
  change (max k s.highest + 0x7FFF < s.rts.ntransmitted →
    s.rts.ntransmitted % 0x10000 = 0xFFFF ∧ (acknowledge s.rts (low16 k)).acked.toNat = 0) ↔
    s.rts.ntransmitted ≤ max k s.highest + 0x7FFF ∨ _
  rw [acknowledge_acked, lag_low16]
  simp only [Stale] at hstate
  split
  · next hnew =>
      rw [low16_toNat]
      omega
  · next hkept => omega

/-- The invalidation works along exactly the runs that never leave the window,
except from a probe number `0xFFFE` modulo `0x10000` with `acked = 0x7FFF`; once
outside, an acknowledgement either leads back or is too old to be looked at. -/
theorem invalidation_works_iff (es : List Event) (sent : machine.Guarded Transmitted {} es) :
    machine.Always StaleHandled {} es ↔ machine.Guarded InvalidationWorks {} es := by
  refine Machine.always_iff_guarded (I := Placed) Placed.init ?_ ?_ ?_ ?_ sent
  · exact (staleHandled_iff Placed.init).mpr fun stale => absurd stale (by decide)
  · intro s e t hs hsent hstep
    cases hstep
    exact hs.step hsent
  · intro s e t hs handled hsent hstep
    cases hstep
    cases e with
    | advance => exact staleHandled_advance_iff hs handled
    | acknowledge k => exact staleHandled_acknowledge_iff hs handled hsent
  · exact fun s e _ => ⟨s.step e, rfl⟩

theorem invalidation_works_iff_reordered :
    machine.Always StaleHandled {} [.advance, .advance, .acknowledge 2, .acknowledge 1] ↔
      machine.Guarded InvalidationWorks {}
        [.advance, .advance, .acknowledge 2, .acknowledge 1] :=
  invalidation_works_iff _ (by decide)

/-! ### A run without replies -/

theorem unanswered {n : Nat} (small : n ≤ 0x7FFF) :
    (List.replicate n Event.advance).foldl Flight.step {} = { rts := { ntransmitted := n } } := by
  induction n with
  | zero => rfl
  | succ n ih =>
      rw [List.replicate_succ', List.foldl_append, ih (by omega)]
      have hacked : (advanceNtransmitted { ntransmitted := n }).acked = 0 := by
        rw [advanceNtransmitted_acked]
        exact if_neg (by
          change ¬(0x7FFF < ((n + 1 : Nat) : Int) % 65536 - 0)
          omega)
      change ({ rts := { ntransmitted := n + 1
                         acked := (advanceNtransmitted { ntransmitted := n }).acked } } :
        Flight) = _
      rw [hacked]

/-- After 32769 probes without a reply, `in_flight` reports that none is missing. -/
theorem invalidation_loses_unanswered :
    (machine.final {} (List.replicate 32769 Event.advance)).map
        (fun s => (s.rts.ntransmitted, inFlight s.rts)) = some (32769, 0) ∧
      ¬machine.Always StaleHandled {} (List.replicate 32769 Event.advance) := by
  have hrun : machine.final {} (List.replicate 32769 Event.advance) =
      some { rts := { ntransmitted := 32769, acked := 32769 } } := by
    rw [machine, Machine.final_ofTotal]
    change some ((List.replicate (32767 + 2) Event.advance).foldl Flight.step {}) = _
    rw [← List.replicate_append_replicate, List.foldl_append, unanswered le_rfl]
    rfl
  rw [hrun]
  refine ⟨rfl, ?_⟩
  intro handled
  have hfall := (handled.final hrun).fallback (by decide) 0 0
  exact absurd hfall (by decide)

end Coping.InFlight
