import Coping.Tracepath.Trace

/-!
# The loop over the hops

`ttl` is a byte and `max_hops` an `int`. While there is a byte above the limit, the loop probes
every hop in turn and ends behind the last one. There is none above 255, which is accepted as a
limit: behind the last hop is a time to live of zero. IPv6 takes it and goes on, and IPv4 refuses
it, so that the program ends with an error.
-/

namespace Coping.Tracepath

open CInt

/-- Probes, the latest of them first, that have gone up to a hop, each hop in its turn. -/
inductive InTurn : Nat → List Nat → Prop where
  | nil : InTurn 0 []
  | again {n : Nat} {probes : List Nat} (h : InTurn n probes) (positive : 0 < n) :
      InTurn n (n :: probes)
  | next {n : Nat} {probes : List Nat} (h : InTurn n probes) : InTurn (n + 1) ((n + 1) :: probes)

/-- The fields that the loop looks at. -/
def RunState.hop (ctl : RunState) : UInt8 × Int := (ctl.ttl, ctl.maxHops)

theorem InTurn.positive {n : Nat} {probes : List Nat} (h : InTurn n probes) : 0 ∉ probes := by
  induction h with
  | nil => exact List.not_mem_nil
  | again h positive ih => exact List.not_mem_cons_of_ne_of_not_mem (Nat.ne_of_lt positive) ih
  | next h ih => exact List.not_mem_cons_of_ne_of_not_mem (Nat.zero_ne_add_one _) ih

/-- Every system takes a hop. -/
theorem setHops_of_pos {ctl : RunState} (positive : 0 < ctl.ttl.toNat) : setHops ctl = true := by
  have hbyte := ctl.ttl.toNat_lt
  have hunicast : takesUnicastHops ctl.ttl.toNat = true := decide_eq_true (by omega)
  have httl : takesTtl ctl.ttl.toNat = true := decide_eq_true (by omega)
  rw [setHops]
  cases ctl.family with
  | inet => exact httl
  | inet6 => simp only [hunicast, httl, Bool.or_true, Bool.and_true]

/-- A probe without an answer. -/
def unanswered : List Event := [.send {} true, .reply false, .queueFailed true]

/-- Behind the probe. -/
def sent (ctl : RunState) : RunState :=
  { noteProbe ctl {} with hisptr := ctl.hisptr + 1 }

/-- Nothing has come. -/
def waited (ctl : RunState) (pass : Nat) : State :=
  { ctl := sent ctl, pass := pass, oldMtu := ctl.mtu, phase := .draining .wait (-1) }

theorem final_unanswered (ctl : RunState) (pass : Nat) :
    trace.final (probeStart ctl pass) unanswered = some (probeReturn (waited ctl pass) (-1)) := rfl

theorem waited_again (ctl : RunState) {pass : Nat} (again : pass + 1 < 3) :
    probeReturn (waited ctl pass) (-1) = probeStart (sent ctl) (pass + 1) := by
  have hmtu : ¬(waited ctl pass).ctl.mtu ≠ (waited ctl pass).oldMtu := not_not_intro rfl
  have hlast : ¬((-1 : Int) > 0 ∨ (waited ctl pass).pass + 1 ≥ 3) := by
    rintro (h | h)
    · cases h
    · exact absurd h (Nat.not_le.mpr again)
  rw [probeReturn, if_neg hmtu, if_neg (by decide), if_neg hlast]
  rfl

theorem waited_last (ctl : RunState) :
    probeReturn (waited ctl 2) (-1) = hopStart { sent ctl with ttl := ctl.ttl + 1 } := by
  have hmtu : ¬(waited ctl 2).ctl.mtu ≠ (waited ctl 2).oldMtu := not_not_intro rfl
  rw [probeReturn, if_neg hmtu, if_neg (by decide), if_pos (.inr (Nat.le_refl 3))]
  rfl

/-- What a hop without an answer does not change. -/
def RunState.socket (ctl : RunState) : UInt16 × Family × Bool :=
  (ctl.basePort, ctl.family, ctl.mapped)

/-- A hop without an answer leads to the head of the loop. Every probe takes a slot of the
history. -/
theorem final_unanswered_hop (ctl : RunState) :
    ∃ next : RunState,
      trace.final (probeStart ctl 0) (unanswered ++ (unanswered ++ unanswered)) =
        some (hopStart next) ∧ next.hop = (ctl.ttl + 1, ctl.maxHops) ∧
        next.socket = ctl.socket ∧ next.hisptr = ctl.hisptr + 1 + 1 + 1 := by
  refine ⟨{ sent (sent (sent ctl)) with ttl := ctl.ttl + 1 }, ?_, rfl, rfl, rfl⟩
  rw [Machine.final_append, final_unanswered, waited_again ctl (by decide), Option.bind_some,
    Machine.final_append, final_unanswered, waited_again _ (by decide), Option.bind_some,
    final_unanswered, waited_last]
  rfl

/-- No byte is above the limit. -/
theorem hopStart_of_set {ctl : RunState} (limit : ctl.maxHops = 255) (set : setHops ctl = true) :
    hopStart ctl = probeStart ctl 0 := by
  have hbyte := ctl.ttl.toNat_lt
  rw [hopStart, if_pos (by omega), if_pos set]

/-- After `n` hops, none of them behind the wrap. -/
theorem final_unanswered_hops (n : Nat) {ctl : RunState} (limit : ctl.maxHops = 255)
    (within : ctl.ttl.toNat + n ≤ 255) :
    ∃ (es : List Event) (next : RunState),
      trace.final (probeStart ctl 0) es = some (probeStart next 0) ∧
        next.hop = (ctl.ttl + UInt8.ofNat n, 255) ∧ next.socket = ctl.socket ∧
        (next.hisptr : Nat) = (ctl.hisptr + 3 * n) % 64 := by
  induction n generalizing ctl with
  | zero =>
      refine ⟨[], ctl, rfl, ?_, rfl, (Nat.mod_eq_of_lt ctl.hisptr.isLt).symm⟩
      rw [← limit]
      simp [RunState.hop]
  | succ n ih =>
      obtain ⟨middle, hmiddle, hhop, hsocket, hptr⟩ := final_unanswered_hop ctl
      obtain ⟨httl, hmax⟩ := Prod.mk.inj hhop
      have hnat : middle.ttl.toNat = ctl.ttl.toNat + 1 := by
        rw [httl, UInt8.toNat_add, UInt8.toNat_one]
        exact Nat.mod_eq_of_lt (by omega)
      have hlimit : middle.maxHops = 255 := hmax.trans limit
      rw [hopStart_of_set hlimit (setHops_of_pos (by omega))] at hmiddle
      obtain ⟨es, next, hes, hnext, hnextSocket, hnextPtr⟩ := ih hlimit (by omega)
      refine ⟨unanswered ++ (unanswered ++ unanswered) ++ es, next, ?_, ?_,
        hnextSocket.trans hsocket, ?_⟩
      · rw [Machine.final_append, hmiddle]
        exact hes
      · rw [hnext, httl, UInt8.ofNat_add, UInt8.add_assoc, UInt8.add_comm 1]
        rfl
      · have hnext : ∀ slot : Fin HIS_ARRAY_SIZE, ((slot + 1 : Fin _) : Nat) = (slot + 1) % 64 :=
          fun slot => Fin.val_add slot 1
        rw [hnextPtr, hptr, hnext, hnext, hnext]
        omega

/-- The first probe of a hop is on its way. -/
def probed (ctl : RunState) : State :=
  { probeStart ctl 0 with ctl := sent ctl, phase := .waiting }

end Coping.Tracepath
