import Mathlib.Logic.Function.Basic
import Coping.Verification.HopLoop

/-!
# The history of the probes

A probe is noted in the slot whose number its port carries, and `recverr` looks a message up by its
port. A ledger of the probes that were sent and not yet reported is kept beside the trace. What the
history holds in a slot is the probe of the ledger, unless a later `sendto` from that slot has
failed. The last slot is never looked at, and a probe with a time to live of zero is taken for none.
-/

namespace Coping.Tracepath

open CInt

/-- The port of a probe, in 16 bits. -/
def probePort (ctl : RunState) (slot : Fin HIS_ARRAY_SIZE) : UInt16 :=
  UInt16.ofNat (ctl.basePort.toNat + slot)

/-- What the history holds in a slot. -/
def RunState.noted (ctl : RunState) (slot : Fin HIS_ARRAY_SIZE) : HHistory := ctl.his.get slot

/-- The payload does not say what the probe was. -/
def Headerless (m : Message) : Prop := ∀ header ∈ m.header, header.ttl = 0 ∨ header.ts = {}

/-- A message is attributed to a probe as it was noted, and the slot is free behind it. -/
structure Reported (ctl : RunState) (m : Message) (slot : Fin HIS_ARRAY_SIZE)
    (record : HHistory) : Prop where
  sndhops : (attribution ctl m).sndhops = record.hops
  retts : (attribution ctl m).retts = some record.sendtime
  cleared : ((recverr ctl m).1.noted slot).hops = 0

/-! ## The ledger -/

/-- A probe that was sent. It is lost when a later `sendto` from its slot fails. -/
structure Sent where
  record : HHistory
  lost : Bool := false

/-- For every slot its latest probe until a message quotes its port, and the probe whose `sendto`
has just failed. -/
structure Ledger where
  latest : Fin HIS_ARRAY_SIZE → Option Sent := fun _ => none
  failed : Option HHistory := none

/-- The probe that a `sendto` is about. -/
def probeRecord (ctl : RunState) (clock : Timespec) : HHistory where
  hops := ctl.ttl.toNat
  sendtime := clock

/-- A message of the error queue that is read, and for whom. -/
def messageOf (s : State) (e : Event) : Option (Caller × Message) :=
  match s.phase, e with
  | .draining caller _, .message m => some (caller, m)
  | _, _ => none

theorem phase_of_message {s : State} {e : Event} {caller : Caller} {m : Message}
    (read : (caller, m) ∈ messageOf s e) : ∃ progress, s.phase = .draining caller progress := by
  unfold messageOf at read
  split at read
  · rename_i hphase
    cases read
    exact ⟨_, hphase⟩
  · cases read

def Ledger.send (ledger : Ledger) (ctl : RunState) (clock : Timespec) (success : Bool) : Ledger :=
  if success then
    { latest := Function.update ledger.latest ctl.hisptr (some { record := probeRecord ctl clock })
      failed := none }
  else
    { latest := Function.update ledger.latest ctl.hisptr
        ((ledger.latest ctl.hisptr).map fun sent => { sent with lost := true })
      failed := some (probeRecord ctl clock) }

theorem Ledger.latest_send_self (ledger : Ledger) (ctl : RunState) (clock : Timespec)
    (success : Bool) :
    (ledger.send ctl clock success).latest ctl.hisptr =
      if success then some { record := probeRecord ctl clock }
      else (ledger.latest ctl.hisptr).map fun sent => { sent with lost := true } := by
  cases success <;> exact Function.update_self _ _ _

theorem Ledger.latest_send_other {slot : Fin HIS_ARRAY_SIZE} {ctl : RunState} (ledger : Ledger)
    (clock : Timespec) (success : Bool) (other : slot ≠ ctl.hisptr) :
    (ledger.send ctl clock success).latest slot = ledger.latest slot := by
  cases success <;> exact Function.update_of_ne other _ _

def Ledger.report (ledger : Ledger) (ctl : RunState) (m : Message) : Ledger where
  latest slot := if m.port = probePort ctl slot then none else ledger.latest slot
  failed := if m.port = probePort ctl ctl.hisptr then none else ledger.failed

def noteLedger (s : State) (e : Event) (_ : State) (ledger : Ledger) : Ledger :=
  match s.phase, e with
  | .sending _, .send clock success => ledger.send s.ctl clock success
  | .draining _ _, .message m => ledger.report s.ctl m
  | _, _ => ledger

/-- The trace with its ledger. -/
def ledgerTrace : Machine (State × Ledger) Event := trace.logged noteLedger

/-! ## What is asked of a message -/

/-- A message without a header that quotes the port of a slot is attributed to the latest probe of
the slot, or to the one whose `sendto` has just failed there. Other ports match no slot. -/
def Attributes (p : State × Ledger) (e : Event) : Prop :=
  ∀ q ∈ messageOf p.1 e,
    (∀ slot, q.2.port = probePort p.1.ctl slot → Headerless q.2 →
      (∀ sent ∈ p.2.latest slot, Reported p.1.ctl q.2 slot sent.record) ∧
      (∀ record ∈ p.2.failed, q.1 ≠ .wait → slot = p.1.ctl.hisptr →
        Reported p.1.ctl q.2 slot record)) ∧
    ((∀ slot : Fin HIS_ARRAY_SIZE, q.2.port.toNat ≠ p.1.ctl.basePort.toNat + slot) →
      foundSlot p.1.ctl q.2 = none)

/-- A probe that is found: it is not in the last slot, and its time to live is not zero. -/
def Findable (slot : Fin HIS_ARRAY_SIZE) (record : HHistory) : Prop :=
  (slot : Nat) ≠ 63 ∧ record.hops ≠ 0

instance (slot : Fin HIS_ARRAY_SIZE) (record : HHistory) : Decidable (Findable slot record) :=
  inferInstanceAs (Decidable (_ ∧ _))

/-- A message without a header is about no probe that cannot be found and about no lost one. -/
def Traceable (p : State × Ledger) (e : Event) : Prop :=
  ∀ q ∈ messageOf p.1 e, ∀ slot, q.2.port = probePort p.1.ctl slot → Headerless q.2 →
    (∀ sent ∈ p.2.latest slot, Findable slot sent.record ∧ sent.lost = false) ∧
    (∀ record ∈ p.2.failed, q.1 ≠ .wait → slot = p.1.ctl.hisptr → Findable slot record)

instance (m : Message) : Decidable (Headerless m) :=
  inferInstanceAs (Decidable (∀ header ∈ m.header, _))

instance (p : State × Ledger) (e : Event) : Decidable (Traceable p e) :=
  inferInstanceAs (Decidable (∀ q ∈ messageOf p.1 e, ∀ slot, q.2.port = probePort p.1.ctl slot →
    Headerless q.2 →
      (∀ sent ∈ p.2.latest slot, Findable slot sent.record ∧ sent.lost = false) ∧
      (∀ record ∈ p.2.failed, q.1 ≠ .wait → slot = p.1.ctl.hisptr → Findable slot record)))

/-! ## One message -/

variable {ctl : RunState} {m : Message} {slot : Fin HIS_ARRAY_SIZE}

theorem probePort_toNat (ports : ctl.basePort.toNat + 63 ≤ 65535) (slot : Fin HIS_ARRAY_SIZE) :
    (probePort ctl slot).toNat = ctl.basePort.toNat + slot := by
  have hslot : (slot : Nat) < 64 := slot.isLt
  rw [probePort, UInt16.toNat_ofNat']
  exact Nat.mod_eq_of_lt (by omega)

/-- A slot that is found has the port that is quoted. -/
theorem port_of_found (found : foundSlot ctl m = some slot) :
    m.port.toNat = ctl.basePort.toNat + slot ∧ m.port = probePort ctl slot := by
  rw [foundSlot] at found
  split at found
  next hrange =>
    dsimp only at found
    split at found
    · cases found
      have hnat : m.port.toNat = ctl.basePort.toNat + (slotOf ctl m).toNat := by
        rw [slotOf] at hrange ⊢
        omega
      refine ⟨hnat, ?_⟩
      apply UInt16.toNat_inj.mp
      rw [probePort, UInt16.toNat_ofNat', ← hnat]
      exact (Nat.mod_eq_of_lt m.port.toNat_lt).symm
    · cases found
  next => cases found

theorem foundSlot_of_port (ports : ctl.basePort.toNat + 63 ≤ 65535)
    (port : m.port = probePort ctl slot) (findable : Findable slot (ctl.noted slot)) :
    foundSlot ctl m = some slot := by
  have hslot : slotOf ctl m = slot := by
    rw [slotOf, port, probePort_toNat ports]
    omega
  have hlt : (slot : Nat) < 64 := slot.isLt
  have hsize : (HIS_ARRAY_SIZE : Int) = 64 := rfl
  have hlast := findable.1
  have hrange : 0 ≤ slotOf ctl m ∧ slotOf ctl m < (HIS_ARRAY_SIZE : Int) - 1 := by
    rw [hslot, hsize]
    omega
  have hfin : ∀ h, (⟨(slotOf ctl m).toNat, h⟩ : Fin HIS_ARRAY_SIZE) = slot := fun _ =>
    Fin.ext ((congrArg Int.toNat hslot).trans (Int.toNat_natCast _))
  rw [foundSlot, dif_pos hrange]
  simp only [hfin]
  exact if_pos findable.2

theorem noted_set_self (his : Vector HHistory HIS_ARRAY_SIZE) (record : HHistory)
    (slot : Fin HIS_ARRAY_SIZE) : (his.set slot record slot.isLt).get slot = record :=
  Vector.getElem_set_self slot.isLt

theorem noted_set_ne (record : HHistory) {slot' : Fin HIS_ARRAY_SIZE} (ne : slot ≠ slot') :
    (ctl.his.set slot' record slot'.isLt).get slot = ctl.noted slot :=
  Vector.getElem_set_ne slot'.isLt slot.isLt fun heq => ne (Fin.ext heq.symm)

/-- What the history holds is what a message is attributed to. -/
theorem reported_of_history (ports : ctl.basePort.toNat + 63 ≤ 65535)
    (port : m.port = probePort ctl slot) (headerless : Headerless m)
    (findable : Findable slot (ctl.noted slot)) : Reported ctl m slot (ctl.noted slot) := by
  have hfound := foundSlot_of_port ports port findable
  have hattribution : (attribution ctl m).sndhops = (ctl.noted slot).hops ∧
      (attribution ctl m).retts = some (ctl.noted slot).sendtime := by
    rw [attribution, hfound]
    cases hheader : m.header with
    | none => exact ⟨rfl, rfl⟩
    | some header =>
        dsimp only
        rw [if_pos (headerless header hheader)]
        exact ⟨rfl, rfl⟩
  obtain ⟨mtu, hopsTo, hopsFrom, hctl⟩ := recverr_ctl ctl m
  refine ⟨hattribution.1, hattribution.2, ?_⟩
  rw [hctl, hfound]
  exact congrArg HHistory.hops (noted_set_self ctl.his _ slot)

/-- A slot whose port is not quoted stays as it is. -/
theorem noted_recverr (other : m.port ≠ probePort ctl slot) :
    (recverr ctl m).1.noted slot = ctl.noted slot := by
  obtain ⟨mtu, hopsTo, hopsFrom, hctl⟩ := recverr_ctl ctl m
  rw [hctl]
  cases hfound : foundSlot ctl m with
  | none => rfl
  | some found =>
      have hne : slot ≠ found := fun heq => other (heq ▸ (port_of_found hfound).2)
      exact noted_set_ne _ hne

/-! ## The ledger and the history -/

/-- What is not lost in the ledger is in the history. While a failed `sendto` is dealt with, its own
slot has no other probe. -/
structure Tracks (basePort : UInt16) (s : State) (ledger : Ledger) : Prop where
  port : s.ctl.basePort = basePort
  latest : ∀ slot, ∀ sent ∈ ledger.latest slot, sent.lost = false → s.ctl.noted slot = sent.record
  overwritten : ∀ i progress, s.phase = .draining (.send i) progress →
    ∀ sent ∈ ledger.latest s.ctl.hisptr, sent.lost = true
  failed : ∀ i progress, s.phase = .draining (.send i) progress →
    ∀ record ∈ ledger.failed, s.ctl.noted s.ctl.hisptr = record

/-- No failed `sendto` is dealt with. -/
def Settled (s : State) : Prop := ∀ i progress, s.phase ≠ .draining (.send i) progress

theorem tracks_of_settled {basePort : UInt16} {s : State} {ledger : Ledger}
    (port : s.ctl.basePort = basePort) (settled : Settled s)
    (latest : ∀ slot, ∀ sent ∈ ledger.latest slot, sent.lost = false →
      s.ctl.noted slot = sent.record) : Tracks basePort s ledger :=
  ⟨port, latest, fun i progress h => absurd h (settled i progress),
    fun i progress h => absurd h (settled i progress)⟩

theorem probeReturn_frame (s : State) (res : Int) :
    (∀ slot, (probeReturn s res).ctl.noted slot = s.ctl.noted slot) ∧
      (probeReturn s res).ctl.basePort = s.ctl.basePort ∧ Settled (probeReturn s res) := by
  have hhop : ∀ ctl : RunState, Settled (hopStart ctl) := by
    intro ctl
    rw [hopStart]
    split
    · split <;> simp [Settled, probeStart]
    · simp [Settled]
  rw [probeReturn]
  split
  · exact ⟨fun _ => rfl, rfl, by simp [Settled, probeStart]⟩
  split
  · exact ⟨fun _ => rfl, rfl, by simp [Settled]⟩
  split
  · rw [hopStart_ctl]
    exact ⟨fun _ => rfl, rfl, hhop _⟩
  · exact ⟨fun _ => rfl, rfl, by simp [Settled, probeStart]⟩

/-- The slot of a failed `sendto` is cleared, and no other one. -/
theorem recverrReturn_frame (s : State) (caller : Caller) (res : Int) :
    (∀ slot, caller = .wait ∨ slot ≠ s.ctl.hisptr →
      (recverrReturn s caller res).ctl.noted slot = s.ctl.noted slot) ∧
    (recverrReturn s caller res).ctl.basePort = s.ctl.basePort ∧
      Settled (recverrReturn s caller res) := by
  cases caller with
  | wait =>
      obtain ⟨hnoted, hport, hsettled⟩ := probeReturn_frame s res
      exact ⟨fun slot _ => hnoted slot, hport, hsettled⟩
  | send i =>
      have hclear : ∀ (record : HHistory) (slot : Fin HIS_ARRAY_SIZE),
          Caller.send i = .wait ∨ slot ≠ s.ctl.hisptr →
            (s.ctl.his.set s.ctl.hisptr record s.ctl.hisptr.isLt).get slot = s.ctl.noted slot := by
        rintro record slot (h | h)
        · cases h
        · exact noted_set_ne record h
      have hreturn : ∀ s' : State, (∀ slot, Caller.send i = .wait ∨ slot ≠ s.ctl.hisptr →
            s'.ctl.noted slot = s.ctl.noted slot) → s'.ctl.basePort = s.ctl.basePort →
          (∀ slot, Caller.send i = .wait ∨ slot ≠ s.ctl.hisptr →
            (probeReturn s' 0).ctl.noted slot = s.ctl.noted slot) ∧
          (probeReturn s' 0).ctl.basePort = s.ctl.basePort ∧ Settled (probeReturn s' 0) := by
        intro s' hkept hbase
        obtain ⟨hnoted, hport, hsettled⟩ := probeReturn_frame s' 0
        exact ⟨fun slot h => (hnoted slot).trans (hkept slot h), hport.trans hbase, hsettled⟩
      simp only [recverrReturn]
      split
      · apply hreturn
        · exact hclear _
        · rfl
      split
      · exact ⟨hclear _, rfl, by simp [Settled]⟩
      split
      · exact ⟨hclear _, rfl, by simp [Settled]⟩
      · apply hreturn
        · exact hclear _
        · rfl

/-! ## Steps -/

theorem noted_noteProbe_self (ctl : RunState) (clock : Timespec) :
    (noteProbe ctl clock).noted ctl.hisptr = probeRecord ctl clock :=
  noted_set_self ctl.his _ ctl.hisptr

theorem noted_noteProbe_other (clock : Timespec) (other : slot ≠ ctl.hisptr) :
    (noteProbe ctl clock).noted slot = ctl.noted slot := noted_set_ne _ other

variable {basePort : UInt16} {s t : State} {ledger : Ledger}

/-- The slots where no `sendto` was keep their probes. -/
theorem Tracks.kept (h : Tracks basePort s ledger) (clock : Timespec) (success : Bool)
    {sent : Sent} (hsent : sent ∈ (ledger.send s.ctl clock success).latest slot)
    (hkept : sent.lost = false) (other : slot ≠ s.ctl.hisptr) :
    (noteProbe s.ctl clock).noted slot = sent.record := by
  rw [Ledger.latest_send_other ledger clock success other] at hsent
  exact (noted_noteProbe_other clock other).trans (h.latest slot sent hsent hkept)

theorem tracks_sent (h : Tracks basePort s ledger) (clock : Timespec) :
    Tracks basePort
      { s with
        ctl := { noteProbe s.ctl clock with hisptr := s.ctl.hisptr + 1 }, phase := .waiting }
      (ledger.send s.ctl clock true) := by
  refine tracks_of_settled h.port (by simp [Settled]) ?_
  intro slot sent hsent hkept
  by_cases hslot : slot = s.ctl.hisptr
  · rw [hslot, Ledger.latest_send_self, if_pos rfl] at hsent
    cases hsent
    rw [hslot]
    exact noted_noteProbe_self s.ctl clock
  · exact h.kept clock true hsent hkept hslot

theorem tracks_sendFailed (h : Tracks basePort s ledger) (clock : Timespec) (i : Nat)
    (progress : Int) :
    Tracks basePort
      { s with ctl := noteProbe s.ctl clock, phase := .draining (.send i) progress }
      (ledger.send s.ctl clock false) := by
  have hlost : ∀ sent ∈ (ledger.send s.ctl clock false).latest s.ctl.hisptr,
      sent.lost = true := by
    intro sent hsent
    rw [Ledger.latest_send_self, if_neg Bool.false_ne_true] at hsent
    obtain ⟨old, -, rfl⟩ := Option.map_eq_some_iff.mp hsent
    rfl
  refine ⟨h.port, ?_, fun _ _ _ => hlost, ?_⟩
  · intro slot sent hsent hkept
    by_cases hslot : slot = s.ctl.hisptr
    · rw [hslot] at hsent
      exact absurd (hlost sent hsent) (by rw [hkept]; exact Bool.false_ne_true)
    · exact h.kept clock false hsent hkept hslot
  · intro _ _ _ record hrecord
    cases hrecord
    exact noted_noteProbe_self s.ctl clock

/-- A message leaves the probes whose ports it does not quote. -/
theorem tracks_message {caller : Caller} {progress progress' : Int} (h : Tracks basePort s ledger)
    (hphase : s.phase = .draining caller progress) (m : Message) :
    Tracks basePort
      { s with ctl := (recverr s.ctl m).1, phase := .draining caller progress' }
      (ledger.report s.ctl m) := by
  obtain ⟨mtu, hopsTo, hopsFrom, hctl⟩ := recverr_ctl s.ctl m
  have hptr : (recverr s.ctl m).1.hisptr = s.ctl.hisptr := by
    rw [hctl]
    cases foundSlot s.ctl m <;> rfl
  have hport : (recverr s.ctl m).1.basePort = s.ctl.basePort := by
    rw [hctl]
    cases foundSlot s.ctl m <;> rfl
  have hquoted : ∀ slot, ∀ sent ∈ (ledger.report s.ctl m).latest slot,
      m.port ≠ probePort s.ctl slot ∧ sent ∈ ledger.latest slot := by
    intro slot sent hsent
    simp only [Ledger.report] at hsent
    split at hsent
    · cases hsent
    next hother => exact ⟨hother, hsent⟩
  refine ⟨hport.trans h.port, ?_, ?_, ?_⟩
  · intro slot sent hsent hkept
    obtain ⟨hother, hold⟩ := hquoted slot sent hsent
    exact (noted_recverr hother).trans (h.latest slot sent hold hkept)
  · intro i _ hsend sent hsent
    cases hsend
    rw [hptr] at hsent
    exact h.overwritten i progress hphase sent (hquoted _ sent hsent).2
  · intro i _ hsend record hrecord
    cases hsend
    simp only [Ledger.report] at hrecord
    split at hrecord
    · cases hrecord
    next hother =>
      have hnoted := noted_recverr hother
      rw [← h.failed i progress hphase record hrecord, ← hnoted]
      exact congrArg _ hptr

/-- Behind `recverr`, the slot of a failed `sendto` has nothing to lose. -/
theorem tracks_return {caller : Caller} {progress : Int} (h : Tracks basePort s ledger)
    (hphase : s.phase = .draining caller progress) (res : Int) :
    Tracks basePort (recverrReturn s caller res) ledger := by
  obtain ⟨hnoted, hport, hsettled⟩ := recverrReturn_frame s caller res
  refine tracks_of_settled (hport.trans h.port) hsettled ?_
  intro slot sent hsent hkept
  have hslot : caller = .wait ∨ slot ≠ s.ctl.hisptr := by
    cases caller with
    | wait => exact .inl rfl
    | send i =>
        refine .inr ?_
        rintro rfl
        have hlost := h.overwritten i progress hphase sent hsent
        rw [hkept] at hlost
        cases hlost
  rw [hnoted slot hslot]
  exact h.latest slot sent hsent hkept

theorem tracks_step {e : Event} (h : Tracks basePort s ledger) (hstep : trace.step s e = some t) :
    Tracks basePort t (noteLedger s e t ledger) := by
  simp only [trace] at hstep
  split at hstep
  next i clock success hphase =>
    simp only [noteLedger, hphase]
    cases success with
    | true =>
        cases hstep
        exact tracks_sent h clock
    | false =>
        cases hstep
        exact tracks_sendFailed h clock i (-1)
  next caller progress m hphase =>
    simp only [noteLedger, hphase]
    split at hstep
    next ctl progress' hrecverr =>
      cases hstep
      have hmessage := @tracks_message _ s _ caller progress progress' h hphase m
      rw [hrecverr] at hmessage
      exact hmessage
    next ctl hrecverr =>
      cases hstep
      have hmessage := @tracks_message _ s _ caller progress progress h hphase m
      rw [hrecverr, ← hphase] at hmessage
      exact tracks_return hmessage hphase 0
  next caller progress again hphase =>
    simp only [noteLedger, hphase]
    cases hstep
    split
    · exact tracks_return h hphase progress
    · exact h
  next received hphase =>
    simp only [noteLedger, hphase]
    cases hstep
    obtain ⟨hnoted, hport, hsettled⟩ := probeReturn_frame s 0
    split
    · refine tracks_of_settled (hport.trans h.port) hsettled ?_
      intro slot sent hsent hkept
      rw [hnoted slot]
      exact h.latest slot sent hsent hkept
    · exact tracks_of_settled h.port (by simp [Settled]) h.latest
  next => cases hstep

/-- What a ledger has in store is what a message is attributed to. -/
theorem Tracks.attributes {e : Event} (h : Tracks basePort s ledger)
    (ports : basePort.toNat + 63 ≤ 65535) (traceable : Traceable (s, ledger) e) :
    Attributes (s, ledger) e := by
  rintro ⟨caller, m⟩ hmem
  obtain ⟨progress, hphase⟩ := phase_of_message hmem
  have hports : s.ctl.basePort.toNat + 63 ≤ 65535 := by
    rw [h.port]
    exact ports
  constructor
  · intro slot hport headerless
    obtain ⟨hlatest, hfailed⟩ := traceable (caller, m) hmem slot hport headerless
    constructor
    · intro sent hsent
      obtain ⟨hfindable, hkept⟩ := hlatest sent hsent
      have hnoted := h.latest slot sent hsent hkept
      rw [← hnoted] at hfindable ⊢
      exact reported_of_history hports hport headerless hfindable
    · intro record hrecord hcaller hslot
      have hfindable := hfailed record hrecord hcaller hslot
      have hnoted : s.ctl.noted slot = record := by
        cases caller with
        | wait => exact absurd rfl hcaller
        | send i =>
            rw [hslot]
            exact h.failed i progress hphase record hrecord
      rw [← hnoted] at hfindable ⊢
      exact reported_of_history hports hport headerless hfindable
  · intro houtside
    cases hfound : foundSlot s.ctl m with
    | none => rfl
    | some slot => exact absurd (port_of_found hfound).1 (houtside slot)

/-- In every run. -/
theorem history_attributed {family : Family} {mapped : Bool} {length hops : Int}
    {basePort : UInt16} {s : State}
    (started : start family mapped length hops basePort = some s)
    (ports : basePort.toNat + 63 ≤ 65535) {es : List Event}
    (traceable : ledgerTrace.Guarded Traceable (s, {}) es) :
    ledgerTrace.Guarded Attributes (s, {}) es := by
  have hstart : Tracks basePort s {} := by
    have hport : s.ctl.basePort = basePort := by
      simp only [start, Option.bind_eq_bind, Option.bind_eq_some_iff, Option.some.injEq] at started
      obtain ⟨mtu, -, maxHops, -, size, -, rfl⟩ := started
      rw [hopStart_ctl]
    exact ⟨hport, fun _ _ hsent => (by cases hsent), fun _ _ _ _ hsent => (by cases hsent),
      fun _ _ _ _ hrecord => (by cases hrecord)⟩
  refine Machine.Guarded.of_invariant (I := fun p => Tracks basePort p.1 p.2) hstart ?_ ?_ traceable
  · rintro ⟨s, ledger⟩ e ⟨t, ledger'⟩ h - hstep
    obtain ⟨hnext, hledger⟩ := Machine.logged_step hstep
    have htracks := tracks_step h hnext
    rwa [← hledger] at htracks
  · rintro ⟨s, ledger⟩ e h htraceable
    exact h.attributes ports htraceable

/-- A router answers a probe without returning its payload. -/
def expiredAt (port : UInt16) : Message where
  port := port
  ee := some
    { eeErrno := EHOSTUNREACH
      eeOrigin := SO_EE_ORIGIN_ICMP
      eeType := ICMP_TIME_EXCEEDED
      eeCode := 0
      eeInfo := 0 }

/-- The first probe is answered. -/
theorem history_attributed_first :
    let s := hopStart
      { basePort := 44444, maxHops := 30, overhead := 28, mtu := 65535, pktbuf := 65535 }
    let es := [.send {} true, .reply false, .message (expiredAt 44444)]
    (start .inet false 0 30 44444 = some s ∧ (44444 : UInt16).toNat + 63 ≤ 65535 ∧
      ledgerTrace.Guarded Traceable (s, {}) es) ∧ ledgerTrace.Guarded Attributes (s, {}) es :=
  have traceable : ledgerTrace.Guarded Traceable
      (hopStart
        { basePort := 44444, maxHops := 30, overhead := 28, mtu := 65535, pktbuf := 65535 }, {})
      [.send {} true, .reply false, .message (expiredAt 44444)] := by decide
  ⟨⟨rfl, by decide, traceable⟩,
    @history_attributed .inet false 0 30 44444 _ rfl (by decide) _ traceable⟩

/-! ## The last slot -/

theorem not_reported_last {record : HHistory} (port : m.port.toNat = ctl.basePort.toNat + 63)
    (header : m.header = none) (hops : 0 ≤ record.hops) : ¬Reported ctl m slot record := by
  intro h
  have hslot : slotOf ctl m = 63 := by
    rw [slotOf, port]
    omega
  have hfound : foundSlot ctl m = none := by
    rw [foundSlot, dif_neg]
    rw [hslot]
    decide
  have hsndhops : (attribution ctl m).sndhops = -1 := by
    rw [attribution, hfound, header]
  rw [← h.sndhops, hsndhops] at hops
  exact absurd hops (by decide)

/-- The 64th probe is answered, those before it are not. -/
theorem history_missed :
    ¬∀ (family : Family) (mapped : Bool) (length hops : Int) (basePort : UInt16) (s : State),
      start family mapped length hops basePort = some s → basePort.toNat + 63 ≤ 65535 →
        ∀ es, ledgerTrace.Guarded Attributes (s, {}) es := by
  intro always
  let ctl : RunState :=
    { basePort := 44444, maxHops := 255, overhead := 28, mtu := 65535, pktbuf := 65535 }
  obtain ⟨es, next, hes, -, hsocket, hptr⟩ := @final_unanswered_hops 21 ctl rfl (by decide)
  have hport : next.basePort = 44444 := (Prod.mk.inj hsocket).1
  have hlogged : (ledgerTrace.final (probeStart ctl 0, {}) es).map Prod.fst =
      some (probeStart next 0) := by
    rw [ledgerTrace, Machine.final_logged, hes]
  obtain ⟨⟨middle, ledger⟩, hmiddle, rfl⟩ := Option.map_eq_some_iff.mp hlogged
  have hrun := always .inet false 0 255 44444 (probeStart ctl 0) rfl (by decide)
    (es ++ [.send {} true, .reply false, .message (expiredAt 44507)])
  obtain ⟨-, hsend⟩ := (Machine.guarded_append.mp hrun).2 _ hmiddle
  obtain ⟨-, hreply⟩ := hsend
    ({ probeStart next 0 with ctl := sent next, phase := .waiting }, ledger.send next {} true) rfl
  obtain ⟨hmessage, -⟩ := hreply (waited next 0, ledger.send next {} true) rfl
  have hslot : probePort (sent next) next.hisptr = 44507 := by
    have hbase : (sent next).basePort = 44444 := hport
    rw [probePort, hbase, hptr]
    decide
  obtain ⟨hattributes, -⟩ := hmessage (.wait, expiredAt 44507) rfl
  refine not_reported_last ?_ rfl ?_
    ((hattributes next.hisptr hslot.symm (fun _ h => by cases h)).1 _
      (Ledger.latest_send_self ledger next {} true))
  · have hbase : (waited next 0).ctl.basePort = 44444 := hport
    rw [hbase]
    decide
  · exact Int.natCast_nonneg _

end Coping.Tracepath
