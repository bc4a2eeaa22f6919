import Coping.Arping.EventLoop

/-!
# The statistics of arping

`recv_pack` counts a packet, and then which kind it is of. Between the two it returns if the
packet is the last one that is waited for. So the counters are exact at the end of a run if
and only if that packet is a reply that was sent to us alone.
-/

namespace Coping.ArpStatistics

open Arping CInt

/-- The packets that have passed the filters, with this one if it does. -/
def noted (ctl : RunState) (packet : Option (Timespec × Arrival)) (log : List Arrival) :
    List Arrival :=
  match packet with
  | some (_, p) => if passes ctl p then p :: log else log
  | none => log

/-- The event loop with these packets, the last one first. -/
def counting : Machine (EventLoopState × List Arrival) Event :=
  eventLoop.logged fun s e _ log => noted s.ctl e.packet log

def isBroadcast (p : Arrival) : Bool := p.FROM.pkttype ≠ PACKET_HOST

def isRequest (p : Arrival) : Bool := arOp p = ARPOP_REQUEST

/-- The counters are those of the packets. -/
structure Exact (ctl : RunState) (log : List Arrival) : Prop where
  received : ctl.received = log.length
  brdRecv : ctl.brdRecv = log.countP isBroadcast
  reqRecv : ctl.reqRecv = log.countP isRequest

/-- With `-w` and `-c`: the packet is the last one that is waited for. -/
def Awaited (ctl : RunState) : Prop := ctl.timeout ≠ 0 ∧ ctl.received + 1 = ctl.count

/-- If it is, it is a reply to us alone. -/
def PlainLast (s : EventLoopState × List Arrival) (e : Event) : Prop :=
  ∀ ts p, e.packet = some (ts, p) → passes s.1.ctl p = true → Awaited s.1.ctl →
    isBroadcast p = false ∧ isRequest p = false

variable {ctl ctl' : RunState} {ts : Timespec} {p : Arrival} {log : List Arrival}
variable {line : List UInt8} {returned : Returned}

/-! ## One packet -/

theorem eq_of_countIf {condition : Bool} {n m : Int} (h : countIf condition n = some m) :
    m = n + if condition then 1 else 0 := by
  rw [countIf] at h
  cases condition with
  | true => exact (checkedInt_eq_some.mp h).2.symm
  | false =>
      cases h
      exact (Int.add_zero _).symm

/-- What `countKind` leaves alone, and what it adds. -/
theorem countKind_eq (h : countKind ctl p = some ctl') :
    ctl'.received = ctl.received ∧
      ctl'.brdRecv = ctl.brdRecv + (if isBroadcast p then 1 else 0) ∧
      ctl'.reqRecv = ctl.reqRecv + (if isRequest p then 1 else 0) := by
  obtain ⟨brdRecv, hbrd, h⟩ := Option.bind_eq_some_iff.mp h
  obtain ⟨reqRecv, hreq, h⟩ := Option.bind_eq_some_iff.mp h
  cases h
  exact ⟨rfl, eq_of_countIf hbrd, eq_of_countIf hreq⟩

theorem unicast_counters (ctl : RunState) (p : Arrival) :
    (unicast ctl p).received = ctl.received ∧ (unicast ctl p).brdRecv = ctl.brdRecv ∧
      (unicast ctl p).reqRecv = ctl.reqRecv := by
  rw [unicast]
  split
  · exact ⟨rfl, rfl, rfl⟩
  · exact ⟨rfl, rfl, rfl⟩

/-- What `recv_pack` does to the counters. -/
theorem recvPack_counters (h : recvPack ctl ts p = some (ctl', line, returned)) :
    (passes ctl p = false ∧ ctl' = ctl) ∨
    (passes ctl p = true ∧ ctl'.received = ctl.received + 1 ∧
      ((Awaited ctl ∧ returned = .finalPacks ∧ ctl'.brdRecv = ctl.brdRecv ∧
          ctl'.reqRecv = ctl.reqRecv) ∨
        (¬Awaited ctl ∧ ctl'.brdRecv = ctl.brdRecv + (if isBroadcast p then 1 else 0) ∧
          ctl'.reqRecv = ctl.reqRecv + (if isRequest p then 1 else 0)))) := by
  rcases recvPack_cases h with ⟨hpasses, hr⟩ | ⟨hpasses, printed, -, hkinds⟩
  · cases hr
    exact .inl ⟨hpasses, rfl⟩
  · refine .inr ⟨hpasses, ?_⟩
    rcases hkinds with ⟨htimeout, hcount, hr⟩ | ⟨hawaited, counted, hcounted, hr⟩
    · cases hr
      exact ⟨rfl, .inl ⟨⟨htimeout, hcount⟩, rfl, rfl, rfl⟩⟩
    · obtain ⟨hsame, hbrd, hreq⟩ := countKind_eq hcounted
      rcases hr with hr | hr
      · cases hr
        exact ⟨hsame, .inr ⟨hawaited, hbrd, hreq⟩⟩
      · cases hr
        obtain ⟨hreceived, hbrd', hreq'⟩ := unicast_counters counted p
        exact ⟨hreceived.trans hsame, .inr ⟨hawaited, hbrd'.trans hbrd, hreq'.trans hreq⟩⟩

/-- The counters stay exact unless the packet is the last one and not a plain reply. -/
theorem exact_recvPack (exact : Exact ctl log)
    (h : recvPack ctl ts p = some (ctl', line, returned)) :
    (Exact ctl' (noted ctl (some (ts, p)) log) ↔
      (passes ctl p = true → Awaited ctl → isBroadcast p = false ∧ isRequest p = false)) ∧
      (returned ≠ .finalPacks → Exact ctl' (noted ctl (some (ts, p)) log)) := by
  obtain ⟨hpasses, rfl⟩ | ⟨hpasses, hreceived, hkinds⟩ := recvPack_counters h
  · have hlog : noted ctl' (some (ts, p)) log = log := by
      rw [noted, hpasses]
      rfl
    rw [hlog, hpasses]
    exact ⟨⟨fun _ h => Bool.noConfusion h, fun _ => exact⟩, fun _ => exact⟩
  · have hlog : noted ctl (some (ts, p)) log = p :: log := if_pos hpasses
    have hreceived' : ctl'.received = (p :: log).length := by
      rw [hreceived, exact.received, List.length_cons, Nat.cast_succ]
    rw [hlog]
    rcases hkinds with ⟨hawaited, hreturned, hbrd, hreq⟩ | ⟨hawaited, hbrd, hreq⟩
    · rw [hreturned]
      refine ⟨⟨?_, ?_⟩, fun h => absurd rfl h⟩
      · rintro ⟨-, hbrd', hreq'⟩ - -
        rw [hbrd, exact.brdRecv, List.countP_cons] at hbrd'
        rw [hreq, exact.reqRecv, List.countP_cons] at hreq'
        constructor
        · by_contra hkind
          rw [if_pos (Bool.not_eq_false _ ▸ hkind)] at hbrd'
          omega
        · by_contra hkind
          rw [if_pos (Bool.not_eq_false _ ▸ hkind)] at hreq'
          omega
      · intro hplain
        obtain ⟨hbroadcast, hrequest⟩ := hplain hpasses hawaited
        refine ⟨hreceived', ?_, ?_⟩
        · rw [hbrd, exact.brdRecv, List.countP_cons_of_neg (by rw [hbroadcast]; decide)]
        · rw [hreq, exact.reqRecv, List.countP_cons_of_neg (by rw [hrequest]; decide)]
    · have hexact : Exact ctl' (p :: log) := by
        refine ⟨hreceived', ?_, ?_⟩
        · rw [hbrd, exact.brdRecv, List.countP_cons]
          push_cast
          rfl
        · rw [hreq, exact.reqRecv, List.countP_cons]
          push_cast
          rfl
      exact ⟨⟨fun _ _ h => absurd h hawaited, fun _ => hexact⟩, fun _ => hexact⟩

/-! ## A run -/

/-- One pass: exactness is lost only with the last packet, and then the loop has ended. -/
theorem exact_step {s t : EventLoopState × List Arrival} {e : Event} (exact : Exact s.1.ctl s.2)
    (h : counting.step s e = some t) :
    (Exact t.1.ctl t.2 ↔ PlainLast s e) ∧ (t.1.phase = .polling → PlainLast s e) := by
  obtain ⟨s, log⟩ := s
  obtain ⟨t, log'⟩ := t
  obtain ⟨hstep, rfl⟩ := Machine.logged_step h
  obtain ⟨-, last, sent, brdSent, hprobe | ⟨ts, p, ⟨counted, line, returned⟩, hpacket, hrecv,
    hctl, hend⟩⟩ := eventLoop_cases hstep
  · obtain ⟨hpacket, hctl⟩ := hprobe
    have hexact : Exact t.ctl log := by
      rw [hctl]
      exact ⟨exact.received, exact.brdRecv, exact.reqRecv⟩
    have hplain : PlainLast (s, log) e := by
      intro ts p h
      rw [hpacket] at h
      cases h
    rw [hpacket]
    exact ⟨⟨fun _ => hplain, fun _ => hexact⟩, fun _ => hplain⟩
  · have hprobed : Exact { s.ctl with last := last, sent := sent, brdSent := brdSent } log :=
      ⟨exact.received, exact.brdRecv, exact.reqRecv⟩
    obtain ⟨hexact, hmore⟩ := exact_recvPack hprobed hrecv
    have hplain : PlainLast (s, log) e ↔ (passes s.ctl p = true → Awaited s.ctl →
        isBroadcast p = false ∧ isRequest p = false) := by
      constructor
      · intro h
        exact h ts p hpacket
      · intro h ts' p' hpacket'
        rw [hpacket] at hpacket'
        cases hpacket'
        exact h
    rw [hplain, hctl, hpacket]
    refine ⟨hexact, ?_⟩
    intro hagain
    apply hexact.mp
    apply hmore
    intro hreturned
    rw [hend hreturned] at hagain
    cases hagain

/-- Where a run ends, every packet but the last has left the counters exact. -/
theorem exact_run {s t : EventLoopState × List Arrival} {es : List Event}
    (exact : Exact s.1.ctl s.2) (run : counting.final s es = some t) :
    Exact t.1.ctl t.2 ↔ counting.Guarded PlainLast s es := by
  induction es generalizing s with
  | nil =>
      cases run
      exact ⟨fun _ => trivial, fun _ => exact⟩
  | cons e es ih =>
      obtain ⟨middle, hstep, hrest⟩ := Option.bind_eq_some_iff.mp run
      obtain ⟨hexact, hplain⟩ := exact_step exact hstep
      have hnext : counting.Guarded PlainLast s (e :: es) ↔
          PlainLast s e ∧ counting.Guarded PlainLast middle es := by
        rw [Machine.guarded_cons, hstep]
        simp only [Option.some.injEq, forall_eq']
      rw [hnext]
      cases es with
      | nil =>
          cases hrest
          rw [hexact]
          exact ⟨fun h => ⟨h, trivial⟩, And.left⟩
      | cons e' es =>
          -- another pass: the loop has not ended with this one
          obtain ⟨third, hstep', -⟩ := Option.bind_eq_some_iff.mp hrest
          have hpolling := (eventLoop_cases (Machine.logged_step hstep').1).1
          have hplain' := hplain hpolling
          rw [ih (hexact.mpr hplain') hrest]
          exact ⟨fun h => ⟨hplain', h⟩, And.right⟩

theorem exact_start {options : RunState} {now : Timespec} {success : Bool} {s : EventLoopState}
    (begun : start options now success = some s) : Exact s.ctl [] := by
  obtain ⟨ctl, hsend, rfl⟩ := Option.map_eq_some_iff.mp begun
  obtain ⟨last, sent, brdSent, rfl⟩ := sendPack_eq hsend
  exact ⟨rfl, rfl, rfl⟩

/-- With any options: where the loop stands, in particular when it reaches `finish`, the counters
are exact if and only if no packet that was waited for as the last one was anything else than a
reply to us alone. -/
theorem counters_exact_iff (options : RunState) (now : Timespec) (success : Bool)
    (s : EventLoopState) (begun : start options now success = some s) (es : List Event)
    (t : EventLoopState) (log : List Arrival) (run : counting.final (s, []) es = some (t, log)) :
    Exact t.ctl log ↔ counting.Guarded PlainLast (s, []) es :=
  exact_run (exact_start begun) run

/-- `-c 1 -w 10` on an Ethernet interface. -/
def oneProbe : RunState where
  gsrc := ⟨192, 168, 0, 1⟩
  gdst := ⟨192, 168, 0, 2⟩
  count := 1
  timeout := 10
  me := { hatype := ARPHRD_ETHER, halen := 6, addr := fun _ => 0x11 }
  he := { hatype := ARPHRD_ETHER, halen := 6, addr := fun _ => 0xff }

/-- The neighbour's answer, 5 ms after the probe. -/
def neighbourBytes : List UInt8 :=
  [0, 1, 8, 0, 6, 4, 0, 2, 0x22, 0x22, 0x22, 0x22, 0x22, 0x22, 192, 168, 0, 2,
    0x11, 0x11, 0x11, 0x11, 0x11, 0x11, 192, 168, 0, 1]

def neighbourAnswer (pkttype : UInt8) : Event :=
  .ready
    { socket := some (.packet { tvSec := 100, tvNsec := 5000000 }
        { buf := fun i => neighbourBytes.getD i 0
          len := 28
          FROM :=
            { hatype := ARPHRD_ETHER, pkttype := pkttype, halen := 6, addr := fun _ => 0x22 } }) }

/-- The loop after the first probe. -/
def afterProbe : EventLoopState where
  ctl := { oneProbe with last := { tvSec := 100 }, sent := 1, brdSent := 1 }
  phase := .polling

theorem start_oneProbe : start oneProbe { tvSec := 100 } true = some afterProbe := by
  rfl

/-- An answer that was broadcast ends the run, and is not counted as a broadcast. -/
theorem counters_inexact :
    ∃ t p, start oneProbe { tvSec := 100 } true = some afterProbe ∧
      counting.final (afterProbe, []) [neighbourAnswer PACKET_BROADCAST] = some (t, [p]) ∧
      t.phase = .finished ∧ isBroadcast p = true ∧ t.ctl.received = 1 ∧ t.ctl.brdRecv = 0 ∧
      ¬Exact t.ctl [p] := by
  refine ⟨{ ctl := { afterProbe.ctl with received := 1 }, phase := .finished }, _, start_oneProbe,
    rfl, rfl, rfl, rfl, rfl, ?_⟩
  intro exact
  exact absurd exact.brdRecv (by decide)

/-- An answer to us alone is counted as it should be. -/
theorem counters_exact_iff_host :
    ∃ t log, counting.final (afterProbe, []) [neighbourAnswer PACKET_HOST] = some (t, log) ∧
      t.phase = .finished ∧
      (Exact t.ctl log ↔
        counting.Guarded PlainLast (afterProbe, []) [neighbourAnswer PACKET_HOST]) :=
  ⟨{ ctl := { afterProbe.ctl with received := 1 }, phase := .finished }, _, rfl, rfl,
    counters_exact_iff oneProbe { tvSec := 100 } true afterProbe start_oneProbe _ _ _ rfl⟩

end Coping.ArpStatistics
