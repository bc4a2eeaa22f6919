import Coping.Ping.ErrorQueue

/-!
# The two error paths

`ping4_receive_error_msg` and `ping6_receive_error_msg` are two copies of one step.
Two messages correspond when they report the same about the same probe, each in the
terms of its family. The copies then differ in two places: the IPv4 function
acknowledges the probe that the error is about, and it sets a filter on a raw socket,
which can end the program.
-/

namespace Coping.ErrorPaths

open CInt

/-- The control messages report the same kind of error. -/
inductive SameReport : Option SockExtendedErr → Option SockExtendedErr → Prop where
  | missing : SameReport none none
  | present {e e6 : SockExtendedErr}
      (ownHost : e.eeOrigin = SO_EE_ORIGIN_LOCAL ↔ e6.eeOrigin = SO_EE_ORIGIN_LOCAL)
      (network : e.eeOrigin = SO_EE_ORIGIN_ICMP ↔ e6.eeOrigin = SO_EE_ORIGIN_ICMP6) :
      SameReport (some e) (some e6)

/-- The messages are about the same packet. -/
structure SameMessage (rts : PingRts) (m m6 : QueuedError) : Prop where
  res : m6.res = m.res
  target : m.target = rts.whereto ↔ m6.target6 = rts.whereto6
  type : m.type = ICMP_ECHO ↔ m6.type = ICMP6_ECHO_REQUEST
  id : m6.id = m.id
  sequence : m6.sequence = m.sequence
  report : SameReport m.ee m6.ee

inductive Corresponding (rts : PingRts) : ErrorQueue → ErrorQueue → Prop where
  | failed (errno : Int) : Corresponding rts (.failed errno) (.failed errno)
  | message {m m6 : QueuedError} (same : SameMessage rts m m6) :
      Corresponding rts (.message m) (.message m6)

/-- Both functions end the program, or they leave the same behind. -/
def Agree : Option ErrorResult → Option ErrorResult → Prop
  | none, none => True
  | some r, some r6 =>
      r.rts.nerrors = r6.rts.nerrors ∧ r.rts.acked = r6.rts.acked ∧
        r.rts.pipesize = r6.rts.pipesize ∧ inFlight r.rts = inFlight r6.rts ∧
          r.errno = r6.errno ∧ r.result = r6.result
  | _, _ => False

/-- The network reports an error about a probe of this run. -/
def Ours (rts : PingRts) (sock : SockType) (m : QueuedError) : Prop :=
  (∃ e, m.ee = some e ∧ e.eeOrigin = SO_EE_ORIGIN_ICMP) ∧ 8 ≤ m.res ∧ m.target = rts.whereto ∧
    m.type = ICMP_ECHO ∧ isOurs rts sock m.id = true

/-- An acknowledgement that changes nothing: of a probe too far back, or of one that
neither widens the pipe nor is newer than the acknowledged one. -/
def Settled (rts : PingRts) (seq : UInt16) : Prop :=
  0x7FFF < lag rts seq ∨ lag rts seq < rts.pipesize ∧ (seq = rts.acked ∨
    toInt16 ((seq.toNat : Int) - rts.acked.toNat) ≤ 0 ∧
      (rts.ntransmitted : Int) % 65536 - rts.acked.toNat ≤ 0x7FFF)

/-- The messages on which the copies do the same. -/
def Harmless (rts : PingRts) (sock : SockType) : ErrorQueue → Prop
  | .failed _ => True
  | .message m =>
      Ours rts sock m → Settled rts m.sequence ∧ ¬(sock = .raw ∧ m.filterRefused = true)

/-! ## One message -/

theorem settled_iff (rts : PingRts) (seq : UInt16) :
    Settled rts seq ↔
      (acknowledge rts seq).acked = rts.acked ∧ (acknowledge rts seq).pipesize = rts.pipesize := by
  rw [acknowledge_acked, acknowledge_pipesize]
  by_cases hfar : 0x7FFF < lag rts seq
  · rw [if_neg (by omega), if_neg (by omega)]
    exact ⟨fun _ => ⟨rfl, rfl⟩, fun _ => .inl hfar⟩
  rw [if_pos (not_lt.mp hfar)]
  have hpipe : max rts.pipesize (lag rts seq + 1) = rts.pipesize ↔
      lag rts seq < rts.pipesize := by
    omega
  rw [hpipe]
  simp only [Settled, hfar, false_or]
  rw [and_comm]
  apply and_congr_left
  intro _
  split
  next hnew =>
    constructor
    · rintro (hsame | hold)
      · exact hsame
      · omega
    · exact Or.inl
  next hold =>
    refine ⟨fun _ => rfl, fun _ => .inr ?_⟩
    omega

theorem acknowledge_of_settled {rts : PingRts} {seq : UInt16} (h : Settled rts seq) :
    acknowledge rts seq = rts := by
  obtain ⟨hacked, hpipe⟩ := (settled_iff rts seq).mp h
  have heta : acknowledge rts seq = { rts with
      acked := (acknowledge rts seq).acked, pipesize := (acknowledge rts seq).pipesize } := rfl
  rw [heta, hacked, hpipe]

section Message

variable {rts : PingRts} {sock : SockType} {errno : Int} {m m6 : QueuedError}

theorem SameMessage.ours_iff (same : SameMessage rts m m6) (sock : SockType)
    {e6 : SockExtendedErr} (report : m6.ee = some e6) (network : e6.eeOrigin = SO_EE_ORIGIN_ICMP6) :
    Ours rts sock m ↔ ¬(m6.res < 8 ∨ m6.target6 ≠ rts.whereto6 ∨
      m6.type ≠ ICMP6_ECHO_REQUEST ∨ ¬isOurs rts sock m6.id) := by
  have hreport := same.report
  rw [report] at hreport
  cases hee : m.ee with
  | none =>
      rw [hee] at hreport
      cases hreport
  | some e =>
      rw [hee] at hreport
      obtain _ | ⟨-, hnetwork⟩ := hreport
      have horigin := hnetwork.mpr network
      simp only [Ours, hee, same.res, same.id, same.target, same.type]
      simp [horigin]

/-- An error about a probe of this run. -/
theorem SameMessage.agree_of_ours (same : SameMessage rts m m6) (ours : Ours rts sock m) :
    Agree (ping4ReceiveErrorMsg rts sock errno (.message m))
        (ping6ReceiveErrorMsg rts sock errno (.message m6)) ↔
      Settled rts m.sequence ∧ ¬(sock = .raw ∧ m.filterRefused = true) := by
  obtain ⟨⟨e, hee, horigin⟩, hres, htarget, htype, hid⟩ := ours
  have hfour : ping4ReceiveErrorMsg rts sock errno (.message m) =
      if sock = .raw ∧ m.filterRefused = true then none
      else some
        { rts := countError (acknowledge rts m.sequence)
          errno := errno
          result := 1
          output := netErrorOutput rts m e } := by
    simp only [ping4ReceiveErrorMsg, hee]
    rw [if_neg (by rw [horigin]; decide), if_pos horigin,
      if_neg (by simp [hres, htarget, htype, hid])]
  have hreport := same.report
  rw [hee] at hreport
  obtain ⟨e6, hee6⟩ : ∃ e6, m6.ee = some e6 := by
    cases h6 : m6.ee with
    | none =>
        rw [h6] at hreport
        cases hreport
    | some e6 => exact ⟨e6, rfl⟩
  rw [hee6] at hreport
  obtain _ | ⟨-, hnetwork⟩ := hreport
  have hours : Ours rts sock m := ⟨⟨e, hee, horigin⟩, hres, htarget, htype, hid⟩
  have hsix : ping6ReceiveErrorMsg rts sock errno (.message m6) = some
      { rts := countError rts
        errno := errno
        result := 1
        output := netErrorOutput rts m6 e6 } := by
    simp only [ping6ReceiveErrorMsg, hee6]
    rw [if_neg (by rw [hnetwork.mp horigin]; decide), if_pos (hnetwork.mp horigin),
      if_neg ((same.ours_iff sock hee6 (hnetwork.mp horigin)).mp hours)]
  rw [hfour, hsix]
  by_cases hrefused : sock = .raw ∧ m.filterRefused = true
  · rw [if_pos hrefused]
    exact ⟨False.elim, fun h => absurd hrefused h.2⟩
  rw [if_neg hrefused]
  constructor
  · rintro ⟨-, hacked, hpipe, -⟩
    exact ⟨(settled_iff rts m.sequence).mpr ⟨hacked, hpipe⟩, hrefused⟩
  · rintro ⟨hsettled, -⟩
    rw [acknowledge_of_settled hsettled]
    exact ⟨rfl, rfl, rfl, rfl, rfl, rfl⟩

/-- Any other message is handled alike. -/
theorem SameMessage.agree_of_not_ours (same : SameMessage rts m m6) (other : ¬Ours rts sock m) :
    Agree (ping4ReceiveErrorMsg rts sock errno (.message m))
      (ping6ReceiveErrorMsg rts sock errno (.message m6)) := by
  have hreport := same.report
  cases hee : m.ee with
  | none =>
      rw [hee] at hreport
      cases hee6 : m6.ee with
      | none => simp [ping4ReceiveErrorMsg, ping6ReceiveErrorMsg, hee, hee6, Agree]
      | some e6 =>
          rw [hee6] at hreport
          cases hreport
  | some e =>
      cases hee6 : m6.ee with
      | none =>
          rw [hee, hee6] at hreport
          cases hreport
      | some e6 =>
          rw [hee, hee6] at hreport
          obtain _ | ⟨hlocal, hnetwork⟩ := hreport
          simp only [ping4ReceiveErrorMsg, ping6ReceiveErrorMsg, hee, hee6]
          by_cases hown : e.eeOrigin = SO_EE_ORIGIN_LOCAL
          · rw [if_pos hown, if_pos (hlocal.mp hown)]
            simp only [localError]
            split <;> exact ⟨rfl, rfl, rfl, rfl, rfl, rfl⟩
          rw [if_neg hown, if_neg (mt hlocal.mpr hown)]
          by_cases hicmp : e.eeOrigin = SO_EE_ORIGIN_ICMP
          · have hours := same.ours_iff sock hee6 (hnetwork.mp hicmp)
            have hother := mt hours.mpr other
            rw [if_pos hicmp, if_pos (hnetwork.mp hicmp), if_pos (not_not.mp hother), if_pos]
            · exact ⟨rfl, rfl, rfl, rfl, rfl, rfl⟩
            · by_contra hours
              refine other ⟨⟨e, hee, hicmp⟩, ?_⟩
              simpa using hours
          · rw [if_neg hicmp, if_neg (mt hnetwork.mpr hicmp)]
            exact ⟨rfl, rfl, rfl, rfl, rfl, rfl⟩

end Message

/-- The error paths agree on exactly the messages that are not about a probe of this
run, or whose acknowledgement changes nothing and whose filter is accepted. -/
theorem error_paths_agree_iff (rts : PingRts) (sock : SockType) (errno : Int)
    {queue queue6 : ErrorQueue} (corresponding : Corresponding rts queue queue6) :
    Agree (ping4ReceiveErrorMsg rts sock errno queue)
        (ping6ReceiveErrorMsg rts sock errno queue6) ↔ Harmless rts sock queue := by
  cases corresponding with
  | failed queueErrno =>
      exact ⟨fun _ => trivial, fun _ => ⟨rfl, rfl, rfl, rfl, rfl, rfl⟩⟩
  | @message m m6 same =>
      by_cases hours : Ours rts sock m
      · rw [same.agree_of_ours hours]
        exact ⟨fun h _ => h, fun h => h hours⟩
      · exact ⟨fun _ h => absurd h hours, fun _ => same.agree_of_not_ours hours⟩

/-- An error about probe `seq` of ten, in the terms of either family. -/
def unreachable (seq : UInt16) (origin type : UInt8) : QueuedError where
  type := type
  id := 0
  sequence := seq
  ee := some { eeErrno := 113, eeOrigin := origin, eeType := 3, eeCode := 1 }

theorem unreachable_corresponding (rts : PingRts) (seq : UInt16) (whereto : rts.whereto = 0)
    (whereto6 : rts.whereto6 = 0) :
    Corresponding rts (.message (unreachable seq SO_EE_ORIGIN_ICMP ICMP_ECHO))
      (.message (unreachable seq SO_EE_ORIGIN_ICMP6 ICMP6_ECHO_REQUEST)) :=
  .message
    { res := rfl
      target := by
        rw [whereto, whereto6]
        exact ⟨fun _ => rfl, fun _ => rfl⟩
      type := ⟨fun _ => rfl, fun _ => rfl⟩
      id := rfl
      sequence := rfl
      report := .present (by decide) (by decide) }

theorem error_paths_agree_iff_acknowledged :
    Agree
        (ping4ReceiveErrorMsg { ntransmitted := 10, acked := 10, pipesize := 5 } .dgram 0
          (.message (unreachable 9 SO_EE_ORIGIN_ICMP ICMP_ECHO)))
        (ping6ReceiveErrorMsg { ntransmitted := 10, acked := 10, pipesize := 5 } .dgram 0
          (.message (unreachable 9 SO_EE_ORIGIN_ICMP6 ICMP6_ECHO_REQUEST))) ↔
      Harmless { ntransmitted := 10, acked := 10, pipesize := 5 } .dgram
        (.message (unreachable 9 SO_EE_ORIGIN_ICMP ICMP_ECHO)) :=
  error_paths_agree_iff _ .dgram 0 (unreachable_corresponding _ 9 rfl rfl)

/-- Of ten probes the last one is reported as undeliverable. -/
theorem error_paths_disagree_on_unreachable :
    ¬Agree
      (ping4ReceiveErrorMsg { ntransmitted := 10, acked := 8, pipesize := 5 } .dgram 0
        (.message (unreachable 10 SO_EE_ORIGIN_ICMP ICMP_ECHO)))
      (ping6ReceiveErrorMsg { ntransmitted := 10, acked := 8, pipesize := 5 } .dgram 0
        (.message (unreachable 10 SO_EE_ORIGIN_ICMP6 ICMP6_ECHO_REQUEST))) := by
  rintro ⟨-, hacked, -⟩
  exact absurd hacked (by decide)

end Coping.ErrorPaths
