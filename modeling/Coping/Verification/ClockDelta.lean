import Mathlib.Algebra.Order.Group.Abs
import Mathlib.Algebra.Order.Group.Int
import Coping.Clockdiff.Measure

/-!
# The delta of two clocks

With timestamps of a peer that answers as RFC 792 requires, the correction around midnight
undoes exactly what the two clocks have wrapped, because the difference and the delays
together are less than half a day. The sample with the best round trip is off by half of
that trip at most.
-/

namespace Coping.ClockDelta

open Clockdiff

/-- A time that the clock yields. -/
structure Normal (ts : Timespec) : Prop where
  sec : 0 ≤ ts.tvSec
  nsec : 0 ≤ ts.tvNsec
  lt : ts.tvNsec < 1000000000

/-- The milliseconds since the epoch. -/
def millis (ts : Timespec) : Int := ts.tvSec * 1000 + ts.tvNsec / 1000000

/-- A probe that was answered: when it was sent and its answer received, and how long it was
on its way there and back. The clock of the peer is ahead by `D`. -/
structure Exchange (D : Int) where
  sentAt : Timespec
  receivedAt : Timespec
  forward : Int
  back : Int
  sent : Normal sentAt
  received : Normal receivedAt
  forward_nonneg : 0 ≤ forward
  back_nonneg : 0 ≤ back
  passed : millis receivedAt = millis sentAt + forward + back
  close : D.natAbs + forward + back < 43200000

/-- The milliseconds since midnight, as they are put into a packet. -/
def stamp (ms : Int) : UInt32 := UInt32.ofNat (ms % MODULO).toNat

/-- The answer, with the time at which the peer has received the probe. -/
def Exchange.packet {D : Int} (x : Exchange D) (id sequence : UInt16) : Clockdiff.Packet where
  type := ICMP_TIMESTAMPREPLY
  id := id
  sequence := sequence
  originate := stamp (millis x.sentAt)
  receive := stamp (millis x.sentAt + x.forward + D)

/-- The times of the sample, whatever the packet's numbers are. -/
def Exchange.times {D : Int} (x : Exchange D) : Times := replyTimes x.receivedAt (x.packet 0 0)

def Exchange.rtt {D : Int} (x : Exchange D) : Int := x.forward + x.back

/-- A sample counts if midnight is not between its two times. -/
def Exchange.accepted {D : Int} (x : Exchange D) : Bool :=
  sinceMidnight x.sentAt ≤ sinceMidnight x.receivedAt

/-- What happens to `measure`. -/
inductive Seen (D : Int) where
  | answer (x : Exchange D) (sequence : UInt16)
  | other (e : Event)

def Seen.event {D : Int} (id : UInt16) : Seen D → Event
  | .answer x sequence => .packet x.receivedAt (x.packet id sequence)
  | .other e => e

/-- Every packet that is taken for an answer is one. -/
def Honest {D : Int} (s : MeasureState) : Seen D → Prop
  | .answer x sequence => s.ctl.answered (x.packet s.ctl.id sequence) = true
  | .other (.packet _ p) => s.ctl.answered p = false
  | .other _ => True

def observed (D : Int) (id : UInt16) : Machine MeasureState (Seen D) where
  step s e := measure.step s (e.event id)

/-- The accepted samples of a run. -/
def samples {D : Int} : List (Seen D) → List (Exchange D)
  | [] => []
  | .answer x _ :: seen => if x.accepted then x :: samples seen else samples seen
  | .other _ :: seen => samples seen

/-! ## One sample -/

section Sample

variable {D : Int}

theorem sinceMidnight_eq {ts : Timespec} (h : Normal ts) :
    sinceMidnight ts = millis ts % MODULO := by
  have hnsec : ts.tvNsec / 1000000 < 1000 := by
    have := h.lt
    omega
  have hnsec' : 0 ≤ ts.tvNsec / 1000000 := Int.ediv_nonneg h.nsec (by decide)
  rw [sinceMidnight, millis, Int.tmod_eq_emod_of_nonneg h.sec, Int.tdiv_eq_ediv_of_nonneg h.nsec,
    MODULO]
  omega

theorem stamp_toNat (ms : Int) : ((stamp ms).toNat : Int) = ms % MODULO := by
  have hlower : 0 ≤ ms % MODULO := Int.emod_nonneg ms (by decide)
  have hupper : ms % MODULO < MODULO := Int.emod_lt_of_pos ms (by decide)
  rw [stamp, UInt32.toNat_ofNat', Nat.mod_eq_of_lt]
  · exact Int.toNat_of_nonneg hlower
  · rw [ MODULO] at hupper ⊢
    omega

/-- A difference of less than half a day is found again. -/
theorem wrap_emod {x d : Int} (lower : -43200000 < d) (upper : d < 43200000) :
    wrap ((x + d) % MODULO - x % MODULO) = d := by
  simp only [wrap, BIASN, BIASP, MODULO]
  omega

theorem Exchange.sendtime_eq (x : Exchange D) : x.times.sendtime = millis x.sentAt % MODULO :=
  stamp_toNat _

theorem Exchange.recvtime_eq (x : Exchange D) :
    x.times.recvtime = millis x.receivedAt % MODULO := sinceMidnight_eq x.received

theorem Exchange.histime_eq (x : Exchange D) :
    x.times.histime = (millis x.sentAt + (D + x.forward)) % MODULO := by
  rw [Int.add_comm D, ← Int.add_assoc]
  exact stamp_toNat _

theorem Exchange.delta1_eq (x : Exchange D) : x.times.delta1 = D + x.forward := by
  have hclose := x.close
  have hforward := x.forward_nonneg
  have hback := x.back_nonneg
  rw [Times.delta1, x.histime_eq, x.sendtime_eq]
  exact wrap_emod (by omega) (by omega)

theorem Exchange.delta2_eq (x : Exchange D) : x.times.delta2 = x.back - D := by
  have hclose := x.close
  have hforward := x.forward_nonneg
  have hback := x.back_nonneg
  have hreceived : millis x.receivedAt =
      millis x.sentAt + (D + x.forward) + (x.back - D) := by
    rw [x.passed]
    omega
  change wrap (x.times.recvtime - x.times.histime) = _
  rw [x.recvtime_eq, x.histime_eq, hreceived]
  exact wrap_emod (by omega) (by omega)

theorem Exchange.accepted_iff (x : Exchange D) :
    x.accepted = true ↔ ¬x.times.recvtime - x.times.sendtime < 0 := by
  rw [Exchange.accepted, decide_eq_true_eq, sinceMidnight_eq x.sent, ← x.sendtime_eq]
  change _ ≤ x.times.recvtime ↔ _
  omega

/-- The estimate of a sample is off by half of its round trip at most. -/
theorem Exchange.estimate (x : Exchange D) :
    |(x.times.delta1 - x.times.delta2).tdiv 2 - D| ≤ x.rtt / 2 + 1 := by
  have hforward := x.forward_nonneg
  have hback := x.back_nonneg
  rw [x.delta1_eq, x.delta2_eq, Exchange.rtt, abs_le]
  obtain ⟨d, hd⟩ : ∃ d, d = D + x.forward - (x.back - D) := ⟨_, rfl⟩
  rw [← hd]
  rcases Int.le_total 0 d with hsign | hsign
  · rw [Int.tdiv_eq_ediv_of_nonneg hsign]
    omega
  · have hneg : d.tdiv 2 = -((-d) / 2) := by
      rw [← Int.tdiv_eq_ediv_of_nonneg (by omega), Int.neg_tdiv, Int.neg_neg]
    rw [hneg]
    omega

end Sample

/-! ## The best sample -/

section Best

variable {D : Int} {taken : List (Exchange D)} {ctl : RunState}

/-- `min_rtt` and `measure_delta1` are those of a sample with the best round trip. -/
def Best (taken : List (Exchange D)) (ctl : RunState) : Prop :=
  taken = [] ∧ ctl.minRtt = 0x7fffffff ∨
    ∃ x ∈ taken, ctl.minRtt = x.rtt ∧
      ctl.measureDelta1 = (x.times.delta1 - x.times.delta2).tdiv 2 ∧ ∀ y ∈ taken, x.rtt ≤ y.rtt

theorem Exchange.rtt_eq (x : Exchange D) : x.times.delta1 + x.times.delta2 = x.rtt := by
  rw [x.delta1_eq, x.delta2_eq, Exchange.rtt]
  omega

theorem Best.note (h : Best taken ctl) (x : Exchange D) :
    Best (taken ++ [x]) (noteBest ctl x.times) := by
  have hmem : ∀ y, y ∈ taken ++ [x] ↔ y ∈ taken ∨ y = x := fun y => by
    rw [List.mem_append, List.mem_singleton]
  have hnew : ctl.minRtt > x.rtt → (∀ y ∈ taken, x.rtt ≤ y.rtt) →
      Best (taken ++ [x]) (noteBest ctl x.times) := by
    intro hbetter hleast
    rw [noteBest, x.rtt_eq, if_pos hbetter]
    refine .inr ⟨x, (hmem x).mpr (.inr rfl), rfl, Int.add_zero _, ?_⟩
    intro y hy
    rcases (hmem y).mp hy with hy | rfl
    · exact hleast y hy
    · exact Int.le_refl _
  rcases h with ⟨rfl, hnone⟩ | ⟨best, hbest, hrtt, hdelta, hleast⟩
  · have hclose := x.close
    apply hnew
    · rw [hnone, Exchange.rtt]
      omega
    · intro y hy
      cases hy
  · by_cases hbetter : x.rtt < ctl.minRtt
    · apply hnew hbetter
      intro y hy
      have := hleast y hy
      omega
    · rw [noteBest, x.rtt_eq, if_neg hbetter]
      refine .inr ⟨best, (hmem best).mpr (.inl hbest), hrtt, hdelta, ?_⟩
      intro y hy
      rcases (hmem y).mp hy with hy | rfl
      · exact hleast y hy
      · omega

/-- Only these two fields matter. -/
theorem Best.congr {ctl' : RunState} (h : Best taken ctl) (minRtt : ctl'.minRtt = ctl.minRtt)
    (delta : ctl'.measureDelta1 = ctl.measureDelta1) : Best taken ctl' := by
  rw [Best, minRtt, delta]
  exact h

end Best

/-! ## A run -/

section Run

variable {D : Int} {id : UInt16} {s t : MeasureState} {taken : List (Exchange D)}
variable {ctl : RunState}

/-- What a run of honest answers keeps. -/
structure Honored (id : UInt16) (taken : List (Exchange D)) (ctl : RunState) : Prop where
  id : ctl.id = id
  mode : ctl.ipOptLen = 0
  best : Best taken ctl

/-- Other fields than these do not matter. -/
theorem Honored.congr {ctl' : RunState} (h : Honored id taken ctl) (same : ctl'.id = ctl.id)
    (mode : ctl'.ipOptLen = ctl.ipOptLen) (minRtt : ctl'.minRtt = ctl.minRtt)
    (delta : ctl'.measureDelta1 = ctl.measureDelta1) : Honored id taken ctl' where
  id := same.trans h.id
  mode := mode.trans h.mode
  best := h.best.congr minRtt delta

theorem Honored.loopTop (h : Honored id taken ctl) (mv : MeasureVars) :
    Honored id taken (loopTop ctl mv).ctl := by
  rw [Clockdiff.loopTop]
  split
  · exact h.congr rfl rfl rfl rfl
  split
  · exact h
  · exact h

theorem Honored.innerEnd (h : Honored id taken ctl) (mv : MeasureVars) (outcome : Outcome) :
    Honored id taken (innerEnd (ctl, mv, outcome)).ctl := by
  cases outcome with
  | «break» => exact h.loopTop mv
  | _ => exact h

theorem Honored.note (h : Honored id taken ctl) (x : Exchange D) :
    Honored id (taken ++ [x]) (noteBest ctl x.times) where
  id := by
    rw [noteBest]
    split
    · exact h.id
    · exact h.id
  mode := by
    rw [noteBest]
    split
    · exact h.mode
    · exact h.mode
  best := h.best.note x

/-- A sample is taken if it is accepted, and dropped otherwise. -/
theorem Honored.sample (h : Honored id taken ctl) (mv : MeasureVars) (x : Exchange D) :
    Honored id (if x.accepted then taken ++ [x] else taken)
      (Clockdiff.innerEnd (takeSample ctl mv x.times)).ctl := by
  have hhistime : ¬x.times.histime ≥ 2 ^ 31 := by
    have hupper := Int.emod_lt_of_pos (millis x.sentAt + (D + x.forward)) (b := MODULO) (by decide)
    rw [x.histime_eq]
    rw [ MODULO] at hupper ⊢
    omega
  rw [takeSample]
  by_cases haccepted : x.accepted = true
  · have hnoted : Honored id (taken ++ [x])
        (noteBest (noteRoundTrip ctl (x.times.recvtime - x.times.sendtime)) x.times) :=
      (show Honored id taken (noteRoundTrip ctl _) from h.congr rfl rfl rfl rfl).note x
    rw [if_pos haccepted, if_neg (x.accepted_iff.mp haccepted)]
    dsimp only
    rw [if_neg fun hlate => hhistime hlate.2]
    split
    · exact hnoted.innerEnd _ _
    · exact hnoted.innerEnd _ _
  · have hdropped : x.times.recvtime - x.times.sendtime < 0 :=
      Decidable.not_not.mp fun hlate => haccepted (x.accepted_iff.mpr hlate)
    rw [if_neg haccepted, if_pos hdropped]
    exact h.innerEnd mv _

theorem Honored.packet (h : Honored id taken ctl) (mv : MeasureVars) (x : Exchange D)
    (sequence : UInt16) (answered : ctl.answered (x.packet id sequence) = true) :
    Honored id (if x.accepted then taken ++ [x] else taken)
      (Clockdiff.innerEnd (measureInnerLoop ctl mv x.receivedAt (x.packet id sequence))).ctl := by
  rw [measureInnerLoop, if_pos answered]
  dsimp only
  rw [if_pos (show (Clockdiff.acknowledge ctl (x.packet id sequence)).ipOptLen = 0 from h.mode)]
  have hacked : Honored id taken (Clockdiff.acknowledge ctl (x.packet id sequence)) :=
    h.congr rfl rfl rfl rfl
  exact hacked.sample mv x

/-- One step: an accepted sample more, or none. -/
theorem Honored.step {e : Seen D} (h : Honored id taken s.ctl) (honest : Honest s e)
    (hstep : (observed D id).step s e = some t) : Honored id (taken ++ samples [e]) t.ctl := by
  change Clockdiff.measure.step s (e.event id) = some t at hstep
  cases e with
  | answer x sequence =>
      obtain ⟨_, hevent, -⟩ | ⟨hevent, -⟩ | ⟨hevent, -⟩ | ⟨clock, p, hevent, rfl⟩ :=
        measure_cases hstep
      all_goals cases hevent
      have hanswered : s.ctl.answered (x.packet id sequence) = true := h.id ▸ honest
      have hsamples : taken ++ samples [Seen.answer x sequence] =
          if x.accepted then taken ++ [x] else taken := by
        rw [samples, samples]
        split
        · rfl
        · exact List.append_nil taken
      rw [hsamples]
      exact h.packet s.mv x sequence hanswered
  | other e =>
      rw [show samples [Seen.other e] = ([] : List (Exchange D)) from rfl, List.append_nil]
      obtain ⟨success, -, rfl⟩ | ⟨-, rfl⟩ | ⟨-, rfl⟩ | ⟨clock, p, hevent, rfl⟩ :=
        measure_cases hstep
      · exact h.congr rfl rfl rfl rfl
      · exact h.innerEnd s.mv _
      · exact h.innerEnd s.mv _
      · cases hevent
        have hforeign : ¬s.ctl.answered p = true := by
          rw [show s.ctl.answered p = false from honest]
          decide
        rw [measureInnerLoop, if_neg hforeign]
        exact h.innerEnd s.mv _

theorem samples_cons (e : Seen D) (seen : List (Seen D)) :
    samples (e :: seen) = samples [e] ++ samples seen := by
  cases e with
  | answer x sequence =>
      rw [samples, samples, samples]
      split
      · rfl
      · rfl
  | other e => rfl

theorem Honored.run {seen : List (Seen D)} (h : Honored id taken s.ctl)
    (honest : (observed D id).Guarded Honest s seen)
    (run : (observed D id).final s seen = some t) :
    Honored id (taken ++ samples seen) t.ctl := by
  induction seen generalizing s taken with
  | nil =>
      cases run
      rwa [samples, List.append_nil]
  | cons e seen ih =>
      obtain ⟨middle, hstep, hrest⟩ := Option.bind_eq_some_iff.mp run
      rw [samples_cons, ← List.append_assoc]
      exact ih (h.step honest.1 hstep) (honest.2 middle hstep) hrest

theorem Honored.start (ctl : RunState) (mode : ctl.ipOptLen = 0) :
    Honored ctl.id ([] : List (Exchange D)) (start ctl).ctl := by
  have hcleared : Honored ctl.id ([] : List (Exchange D)) { ctl with
      minRtt := 0x7fffffff
      measureDelta := HOSTDOWN
      measureDelta1 := HOSTDOWN
      acked := 0
      seqno := 0
      seqno0 := 0 } := ⟨rfl, mode, .inl ⟨rfl, rfl⟩⟩
  exact hcleared.loopTop {}

/-- With timestamps of an honest peer every accepted sample is measured exactly, and the
estimate of the difference is off by half of the best round trip at most. -/
theorem clock_delta_bound (ctl : RunState) (mode : ctl.ipOptLen = 0) (D : Int)
    (seen : List (Seen D)) (t : MeasureState)
    (honest : (observed D ctl.id).Guarded Honest (start ctl) seen)
    (run : (observed D ctl.id).final (start ctl) seen = some t) :
    (∀ x ∈ samples seen, x.times.delta1 = D + x.forward ∧ x.times.delta2 = x.back - D) ∧
      (samples seen ≠ [] →
        (∃ x ∈ samples seen, t.ctl.minRtt = x.forward + x.back) ∧
          (∀ x ∈ samples seen, t.ctl.minRtt ≤ x.forward + x.back) ∧
            |t.ctl.measureDelta1 - D| ≤ t.ctl.minRtt / 2 + 1) := by
  have hrun := (Honored.start ctl mode).run honest run
  rw [List.nil_append] at hrun
  refine ⟨fun x _ => ⟨x.delta1_eq, x.delta2_eq⟩, ?_⟩
  intro nonempty
  obtain ⟨hnone, -⟩ | ⟨x, hx, hrtt, hdelta, hleast⟩ := hrun.best
  · exact absurd hnone nonempty
  · refine ⟨⟨x, hx, hrtt⟩, ?_, ?_⟩
    · intro y hy
      rw [hrtt]
      exact hleast y hy
    · rw [hrtt, hdelta]
      exact x.estimate

/-- A probe that takes 1 ms to a peer whose clock is 5 ms ahead, and 2 ms back. -/
def quickExchange : Exchange 5 where
  sentAt := { tvSec := 100 }
  receivedAt := { tvSec := 100, tvNsec := 3000000 }
  forward := 1
  back := 2
  sent := by constructor <;> decide
  received := by constructor <;> decide
  forward_nonneg := by decide
  back_nonneg := by decide
  passed := rfl
  close := by decide

def quickRun : List (Seen 5) := [.other (.send true), .answer quickExchange 1]

def quickEnd : MeasureState :=
  ((observed 5 7).final (start { id := 7 }) quickRun).getD (start { id := 7 })

theorem clock_delta_bound_quick :
    samples quickRun ≠ [] ∧ |quickEnd.ctl.measureDelta1 - 5| ≤ quickEnd.ctl.minRtt / 2 + 1 :=
  have honest : (observed 5 7).Guarded Honest (start { id := 7 }) quickRun := by
    refine ⟨trivial, fun t ht => ?_⟩
    cases ht
    exact ⟨rfl, fun t _ => trivial⟩
  ⟨List.cons_ne_nil _ _,
    ((clock_delta_bound { id := 7 } rfl 5 quickRun quickEnd honest rfl).2
      (List.cons_ne_nil _ _)).2.2⟩

end Run

end Coping.ClockDelta
