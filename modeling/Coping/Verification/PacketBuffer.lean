import Coping.Tracepath.Trace

/-!
# The packet buffer of tracepath

`probe_ttl` clears `ctl->mtu` bytes of the buffer, sends `ctl->mtu - ctl->overhead` of them and
receives into `ctl->mtu`. The buffer has the size that `main` settled at the start. Only `recverr`
changes the MTU later, to whatever an `EMSGSIZE` carries.
-/

namespace Coping.Tracepath

open CInt

/-- There is data to send, and the buffer holds it. -/
structure Fits (ctl : RunState) : Prop where
  data : ctl.overhead < ctl.mtu
  room : ctl.mtu ≤ ctl.pktbuf

instance (ctl : RunState) : Decidable (Fits ctl) :=
  decidable_of_iff (ctl.overhead < ctl.mtu ∧ ctl.mtu ≤ ctl.pktbuf)
    ⟨fun h => ⟨h.1, h.2⟩, fun h => ⟨h.data, h.room⟩⟩

/-- `sendto` has a positive length and stays inside the buffer. -/
theorem Fits.send {ctl : RunState} (h : Fits ctl) (overhead : 0 ≤ ctl.overhead) :
    0 < ctl.mtu - ctl.overhead ∧ ctl.mtu - ctl.overhead ≤ ctl.pktbuf := by
  have hdata := h.data
  have hroom := h.room
  omega

/-- The MTU that a message reports. -/
def Message.reported (m : Message) : Option Int :=
  m.ee.bind fun e => if e.eeErrno = EMSGSIZE then some (toInt32 e.eeInfo) else none

/-- The MTU that is reported to the program by an event. -/
def report (s : State) (e : Event) : Option Int :=
  match s.phase, e with
  | .draining _ _, .message m => m.reported
  | _, _ => none

/-- A reported MTU is above the overhead and not above the size of the buffer. -/
def Reports (s : State) (e : Event) : Prop :=
  ∀ mtu ∈ report s e, s.ctl.overhead < mtu ∧ mtu ≤ s.ctl.pktbuf

instance (s : State) (e : Event) : Decidable (Reports s e) :=
  inferInstanceAs (Decidable (∀ mtu ∈ report s e, s.ctl.overhead < mtu ∧ mtu ≤ s.ctl.pktbuf))

theorem reports_of_silent {s : State} {e : Event} (silent : report s e = none) :
    Reports s e := by
  intro mtu hmem
  rw [silent] at hmem
  cases hmem

/-! ## What a step does to the sizes -/

/-- The fields that `Fits` looks at. -/
def RunState.sizes (ctl : RunState) : Int × Int × Int := (ctl.overhead, ctl.mtu, ctl.pktbuf)

theorem Fits.congr {ctl ctl' : RunState} (h : Fits ctl) (same : ctl'.sizes = ctl.sizes) :
    Fits ctl' := by
  simp only [RunState.sizes, Prod.mk.injEq] at same
  obtain ⟨hoverhead, hmtu, hpktbuf⟩ := same
  constructor
  · rw [hoverhead, hmtu]
    exact h.data
  · rw [hmtu, hpktbuf]
    exact h.room

theorem sizes_probeReturn (s : State) (res : Int) :
    (probeReturn s res).ctl.sizes = s.ctl.sizes := by
  rw [probeReturn]
  split
  · rfl
  split
  · rfl
  split
  · rw [hopStart_ctl]
    rfl
  · rfl

theorem sizes_recverrReturn (s : State) (caller : Caller) (res : Int) :
    (recverrReturn s caller res).ctl.sizes = s.ctl.sizes := by
  cases caller with
  | wait => exact sizes_probeReturn s res
  | send i =>
      simp only [recverrReturn]
      split
      · exact sizes_probeReturn _ _
      split
      · rfl
      split
      · rfl
      · exact sizes_probeReturn _ _

theorem sizes_clearSlot (ctl : RunState) (slot : Option (Fin HIS_ARRAY_SIZE)) :
    (clearSlot ctl slot).sizes = ctl.sizes := by
  cases slot <;> rfl

/-- A report replaces the MTU. -/
theorem recverr_of_reported {ctl : RunState} {m : Message} {mtu : Int}
    (reported : m.reported = some mtu) :
    (recverr ctl m).1 = { clearSlot ctl (foundSlot ctl m) with mtu := mtu } := by
  obtain ⟨e, hee, hmtu⟩ := Option.bind_eq_some_iff.mp reported
  by_cases hsize : e.eeErrno = EMSGSIZE
  · rw [if_pos hsize, Option.some.injEq] at hmtu
    have htimeout : ¬e.eeErrno = ETIMEDOUT := by
      rw [hsize]
      decide
    simp only [recverr, hee, if_neg htimeout, if_pos hsize, hmtu]
  · rw [if_neg hsize] at hmtu
    cases hmtu

theorem sizes_recverr {ctl : RunState} {m : Message} (silent : m.reported = none) :
    (recverr ctl m).1.sizes = ctl.sizes := by
  rw [← sizes_clearSlot ctl (foundSlot ctl m)]
  cases hee : m.ee with
  | none => simp only [recverr, hee]
  | some e =>
      have hsize : e.eeErrno ≠ EMSGSIZE := fun hsize => by
        rw [Message.reported, hee, Option.bind_some, if_pos hsize] at silent
        cases silent
      simp only [recverr, hee, if_neg hsize]
      split
      · rfl
      split
      · rfl
      split
      · rfl
      · rfl

theorem fits_recverr {ctl : RunState} (h : Fits ctl) (m : Message) :
    Fits (recverr ctl m).1 ↔ ∀ mtu ∈ m.reported, ctl.overhead < mtu ∧ mtu ≤ ctl.pktbuf := by
  cases hreported : m.reported with
  | none =>
      have hsilent : ∀ mtu ∈ (none : Option Int), ctl.overhead < mtu ∧ mtu ≤ ctl.pktbuf :=
        fun _ hmem => absurd hmem (Option.not_mem_none _)
      exact iff_of_true (h.congr (sizes_recverr hreported)) hsilent
  | some mtu =>
      have hclear := sizes_clearSlot ctl (foundSlot ctl m)
      simp only [RunState.sizes, Prod.mk.injEq] at hclear
      obtain ⟨hoverhead, -, hpktbuf⟩ := hclear
      rw [recverr_of_reported hreported]
      constructor
      · intro hfits mtu' hmem
        cases hmem
        rw [← hoverhead, ← hpktbuf]
        exact ⟨hfits.data, hfits.room⟩
      · intro hrange
        obtain ⟨hdata, hroom⟩ := hrange mtu rfl
        rw [← hoverhead] at hdata
        rw [← hpktbuf] at hroom
        exact ⟨hdata, hroom⟩

/-- One step keeps the packet inside its buffer exactly if a report that it reads does. -/
theorem fits_step {s t : State} {e : Event} (h : Fits s.ctl) (hstep : trace.step s e = some t) :
    Fits t.ctl ↔ Reports s e := by
  simp only [trace] at hstep
  split at hstep
  · rename_i clock success hphase
    have hsilent : report s (.send clock success) = none := by simp only [report, hphase]
    split at hstep
    all_goals
      cases hstep
      exact iff_of_true (h.congr rfl) (reports_of_silent hsilent)
  · rename_i caller _ m hphase
    have hreport : report s (.message m) = m.reported := by simp only [report, hphase]
    rw [Reports, hreport, ← fits_recverr h m]
    split at hstep
    · rename_i ctl progress hrecverr
      cases hstep
      rw [hrecverr]
    · rename_i ctl hrecverr
      cases hstep
      rw [hrecverr]
      have hsizes := sizes_recverrReturn { s with ctl := ctl } caller 0
      exact ⟨fun hfits => hfits.congr hsizes.symm, fun hfits => hfits.congr hsizes⟩
  · rename_i caller progress again hphase
    have hsilent : report s (.queueFailed again) = none := by simp only [report, hphase]
    cases hstep
    refine iff_of_true ?_ (reports_of_silent hsilent)
    split
    · exact h.congr (sizes_recverrReturn s caller progress)
    · exact h
  · rename_i received hphase
    have hsilent : report s (.reply received) = none := by simp only [report, hphase]
    cases hstep
    refine iff_of_true ?_ (reports_of_silent hsilent)
    split
    · exact h.congr (sizes_probeReturn s 0)
    · exact h.congr rfl
  · cases hstep

/-- What the program does not wait for reports nothing. -/
theorem report_of_refused {s : State} {e : Event} (refused : trace.step s e = none) :
    report s e = none := by
  unfold report
  split
  · rename_i hphase
    simp only [trace, hphase] at refused
    split at refused
    · cases refused
    · cases refused
  · rfl

/-! ## Runs -/

theorem lt_of_settle {o default mtu : Int} {size : Int × Int}
    (settled : settle o default mtu = some size) : size.1 < size.2 := by
  simp only [settle] at settled
  split at settled
  all_goals
    split at settled
    · cases settled
    · cases settled
      omega

/-- `main` settles a packet with data. -/
theorem lt_of_packetSize {family : Family} {mapped : Bool} {mtu : Int} {size : Int × Int}
    (settled : packetSize family mapped mtu = some size) : size.1 < size.2 := by
  cases family with
  | inet => exact lt_of_settle settled
  | inet6 =>
      obtain ⟨first, hfirst, hrest⟩ := Option.bind_eq_some_iff.mp settled
      cases mapped with
      | true => exact lt_of_settle hrest
      | false =>
          cases hrest
          exact lt_of_settle hfirst

theorem fits_start {family : Family} {mapped : Bool} {length hops : Int} {basePort : UInt16}
    {s : State} (started : start family mapped length hops basePort = some s) : Fits s.ctl := by
  simp only [start, Option.bind_eq_bind, Option.bind_eq_some_iff, Option.some.injEq] at started
  obtain ⟨mtu, -, maxHops, -, ⟨overhead, size⟩, hsize, rfl⟩ := started
  rw [hopStart_ctl]
  exact ⟨lt_of_packetSize hsize, Int.le_refl _⟩

/-- The packet stays inside its buffer exactly along the runs in which every reported MTU is
above the overhead and not above the size of the buffer. -/
theorem packet_fits_iff {family : Family} {mapped : Bool} {length hops : Int}
    {basePort : UInt16} {s : State}
    (started : start family mapped length hops basePort = some s) (es : List Event) :
    trace.Always (fun s => Fits s.ctl) s es ↔ trace.Guarded Reports s es :=
  Machine.always_iff_guarded_of_refused (I := fun _ => True) (V := fun _ _ => True) trivial
    (fits_start started) (fun _ _ _ _ _ _ => trivial)
    (fun _ _ _ _ holds _ hstep => fits_step holds hstep)
    (fun _ _ _ refused => reports_of_silent (report_of_refused refused))
    (Machine.guarded_of_forall fun _ _ => trivial)

/-- `tracepath -4` with the default size. -/
def defaultStart : State :=
  hopStart { basePort := 44444, maxHops := 30, overhead := 28, mtu := 65535, pktbuf := 65535 }

/-- A probe goes out, no reply comes, and a router asks for fragments of the given size. -/
def fragmentationNeeded (mtu : Nat) : List Event :=
  [.send {} true, .reply false,
    .message
      { port := 44444
        ee := some
          { eeErrno := EMSGSIZE
            eeOrigin := SO_EE_ORIGIN_ICMP
            eeType := 3
            eeCode := 4
            eeInfo := mtu } }]

theorem packet_fits_ethernet :
    trace.Always (fun s => Fits s.ctl) defaultStart (fragmentationNeeded 1500) := by
  have hstart : start .inet false 0 30 44444 = some defaultStart := rfl
  exact (packet_fits_iff hstart _).mpr (by decide)

/-- A router may ask for less than the headers take. -/
theorem packet_outgrows_buffer :
    ¬∀ (family : Family) (mapped : Bool) (length hops : Int) (basePort : UInt16) (s : State),
      start family mapped length hops basePort = some s →
        ∀ es, trace.Always (fun s => Fits s.ctl) s es := fun always =>
  absurd (always .inet false 0 30 44444 defaultStart rfl (fragmentationNeeded 10)) (by decide)

end Coping.Tracepath
