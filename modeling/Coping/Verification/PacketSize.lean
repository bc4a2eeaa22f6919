import Coping.Ping.PacketSize
import Coping.Verification.SourceRoute

/-!
# The limit on the size of a packet

`main` checks `-s` against a limit that is to keep the packet, with its headers and IP
options, below 65536 bytes. Two facts come too late for the check. That the options
hold a source route is known in `ping4_run` only; and when neither the options, nor the
sockets, nor the text of the target tell the family, the check is made for IPv6, whose
limit is wider.

`WithinLimit` says that neither matters, and `size_enforced_iff` that this is exactly when
an accepted size fits. The packet buffer holds every accepted size.
-/

namespace Coping.PacketSize

open SourceRoute

variable {kernel : Sockets} {net : Network} {o : RouteOptions} {hops : List UInt32}
  {s s' : Routing} {whereto : UInt32}

/-! ## Option bytes of an accepted IPv4 run -/

/-- What the manual counts for options: 40 bytes with `-R`, `-T` or intermediate hops. -/
def optionBytes (o : RouteOptions) (hops : List UInt32) : Nat :=
  if o.optRroute ∨ o.optTimestamp ≠ none ∨ hops ≠ [] then 40 else 0

/-- The source route flag is set by hops only, and where it is not needed to tell them
from prespecified timestamps it is clear. -/
def Sourced (o : RouteOptions) (hops : List UInt32) (s : Routing) : Prop :=
  s.optSourceroute = true → hops ≠ [] ∧ o.optTimestamp = none

theorem fillRoute_optSourceroute {argv : List UInt32} (h : fillRoute s argv = .ok s') :
    s'.optSourceroute = s.optSourceroute := by
  induction s, argv using fillRoute.induct with
  | case1 s =>
      cases h
      rfl
  | case2 s whereto =>
      cases h
      rfl
  | case3 s hop argv hargv hroom ih =>
      rw [fillRoute, dif_pos hroom] at h
      · exact ih h
      · exact hargv
  | case4 s hop argv hargv hroom =>
      rw [fillRoute, dif_neg hroom] at h
      · cases h
      · exact hargv

/-- The checks on the number of targets do not depend on what is there already. -/
theorem accepted_of_checkTargets (h : checkTargets o s (hops.length + 1) = .ok s') :
    Accepted o hops := by
  by_cases hmany : hops.length + 1 > 1
  · rw [checkTargets, if_pos hmany] at h
    rw [Accepted, checkTargets, if_pos hmany]
    by_cases hrroute : o.optRroute = true
    · rw [if_pos hrroute] at h
      cases h
    · rw [if_neg hrroute] at h
      rw [if_neg hrroute]
      cases htype : o.optTimestamp with
      | none =>
          simp only [htype] at h ⊢
          by_cases hlong : hops.length + 1 > 10
          · rw [if_pos hlong] at h
            cases h
          · exact ⟨_, if_neg hlong⟩
      | some type =>
          simp only [htype] at h ⊢
          by_cases hwrong : type ≠ .prespec ∨ hops.length + 1 > 5
          · rw [if_pos hwrong] at h
            cases h
          · exact ⟨_, if_neg hwrong⟩
  · exact ⟨_, if_neg hmany⟩

/-- An attempt leaves the flag set where the hops make a source route. -/
theorem filled_optSourceroute (h : Filled o hops s s' whereto) (sourced : Sourced o hops s) :
    s'.optSourceroute = decide (hops ≠ [] ∧ o.optTimestamp = none) := by
  obtain ⟨checked, hchecked, hfill⟩ := h
  rw [fillRoute_optSourceroute hfill]
  by_cases hnil : hops = []
  · subst hnil
    cases hchecked
    rw [Bool.eq_false_iff.mpr fun hset => (sourced hset).1 rfl]
    rfl
  · rcases ((accepted_of_checkTargets hchecked).cases hnil).2 with
      ⟨htype, _, hcheck⟩ | ⟨htype, _, hcheck⟩
    · rw [hcheck] at hchecked
      cases hchecked
      have hclear : s.optSourceroute = false := by
        apply Bool.eq_false_iff.mpr
        intro hset
        have hnone := (sourced hset).2
        rw [htype] at hnone
        cases hnone
      rw [hclear, htype]
      simp
    · rw [hcheck] at hchecked
      cases hchecked
      simp [hnil, htype]

/-- What an attempt leaves, `get_ipv4_optlen` counts as the manual does. -/
theorem filled_optlen (h : Filled o hops s s' whereto) (sourced : Sourced o hops s) :
    getIpv4Optlen o s' = optionBytes o hops := by
  rw [getIpv4Optlen, filled_optSourceroute h sourced, optionBytes]
  congr 1
  rw [decide_eq_true_iff]
  apply propext
  tauto

theorem filled_sourced (h : Filled o hops s s' whereto) (sourced : Sourced o hops s) :
    Sourced o hops s' := by
  intro hset
  rw [filled_optSourceroute h sourced] at hset
  exact of_decide_eq_true hset

/-! ## The loop over the results -/

/-- A call of `ping4_run` goes on from a route that the hops have been filled in. -/
theorem tryResult_inet {k : Kept} {address : UInt32} {aiNext : Bool}
    (h : tryResult net o hops k aiNext (.inet address) ≠ .exits) :
    ∃ routing, Filled o hops k.routing routing address ∧
      (tryResult net o hops k aiNext (.inet address) = .next { k with routing := routing } ∨
        tryResult net o hops k aiNext (.inet address) =
          .proceeds (getIpv4Optlen o routing)) := by
  rw [tryResult] at h ⊢
  cases hprobe : ping4Probe o hops net.connect4 k.routing address aiNext with
  | error stop =>
      rw [hprobe] at h
      exact absurd rfl h
  | ok r =>
      obtain ⟨routing, hfilled⟩ := filled_of_ping4Probe hprobe
      refine ⟨routing, hfilled, ?_⟩
      rw [hprobe] at h
      rw [hfilled.ping4Probe] at hprobe
      split at hprobe
      · cases hprobe
        cases hblocks : optionBlocks o routing with
        | ok blocks => exact .inr (by simp only [hblocks])
        | error stop => simp [hblocks] at h
      · split at hprobe
        · cases hprobe
          exact .inl rfl
        · cases hprobe
          exact absurd rfl h

theorem tryResult_inet_proceeds {k : Kept} {address : UInt32} {aiNext : Bool}
    {optlen : Nat} (sourced : Sourced o hops k.routing)
    (h : tryResult net o hops k aiNext (.inet address) = .proceeds optlen) :
    optlen = optionBytes o hops := by
  have hgoes : tryResult net o hops k aiNext (.inet address) ≠ .exits := by
    rw [h]
    exact fun hexits => by cases hexits
  obtain ⟨routing, hfilled, hnext | hproceeds⟩ := tryResult_inet hgoes
  · rw [h] at hnext
    cases hnext
  · rw [h] at hproceeds
    cases hproceeds
    exact filled_optlen hfilled sourced

/-- An invariant of the loop, kept by a call that sends it on. -/
theorem tryResult_next {k k' : Kept} {ai : AddrInfo} {aiNext : Bool}
    (sourced : Sourced o hops k.routing)
    (h : tryResult net o hops k aiNext ai = .next k') : Sourced o hops k'.routing := by
  cases ai with
  | inet address =>
      have hgoes : tryResult net o hops k aiNext (.inet address) ≠ .exits := by
        rw [h]
        exact fun hexits => by cases hexits
      obtain ⟨routing, hfilled, hnext | hproceeds⟩ := tryResult_inet hgoes
      · rw [h] at hnext
        cases hnext
        exact filled_sourced hfilled sourced
      · rw [h] at hproceeds
        cases hproceeds
  | inet6 ai =>
      rw [tryResult] at h
      split at h
      · cases h
      · split at h
        · cases h
          exact sourced
        · cases h
        · cases h

theorem tryResults_inet {k : Kept} {targetAiFamily : Option Family} {results : List AddrInfo}
    {optlen : Nat} (sourced : Sourced o hops k.routing)
    (h : tryResults net o hops targetAiFamily k results = some (.inet, optlen)) :
    optlen = optionBytes o hops := by
  induction results generalizing k with
  | nil => cases h
  | cons ai rest ih =>
      rw [tryResults] at h
      split at h
      · exact ih sourced h
      · split at h
        · rename_i k' hnext
          exact ih (tryResult_next sourced hnext) h
        · rename_i optlen' hproceeds
          cases ai with
          | inet address =>
              cases h
              exact tryResult_inet_proceeds sourced hproceeds
          | inet6 ai => cases h
        · cases h

/-! ## The limit -/

/-- The family is known to be IPv4 when the limit is set: by an option, by the sockets, or
by the text of the target. -/
def KnownInet (kernel : Sockets) (s : SizeOptions) (t : Targets) : Prop :=
  t.inet = true ∨
    ((s.aiFamily = some .inet ∨ (s.aiFamily = none ∧ kernel.sock6 = false)) ∧ t.inet6 = false)

/-- Neither a source route nor the family comes too late for the limit, or the size is one
that the limit for them would allow. -/
structure WithinLimit (kernel : Sockets) (s : SizeOptions) (t : Targets) : Prop where
  routed : t.hops ≠ [] → s.route.optTimestamp = none → s.datalen ≤ 65467
  known : KnownInet kernel s t ∨ s.datalen ≤ 65507 - getIpv4Optlen s.route {}

/-- The limit that the manual gives for IPv4. -/
def documentedLimit (o : RouteOptions) (hops : List UInt32) : Nat :=
  if o.optRroute ∨ o.optTimestamp ≠ none ∨ hops ≠ [] then 65467 else 65507

theorem documentedLimit_eq (o : RouteOptions) (hops : List UInt32) :
    documentedLimit o hops + optionBytes o hops = 65507 := by
  rw [documentedLimit, optionBytes]
  split <;> rfl

theorem getIpv4Optlen_main (o : RouteOptions) :
    getIpv4Optlen o {} = if o.optRroute ∨ o.optTimestamp ≠ none then 40 else 0 := by
  simp [getIpv4Optlen]

/-- A size checked against the right limit where the family is known is within the
documented one just when it is within the limit of the check. -/
theorem withinLimit_iff {s : SizeOptions} {t : Targets}
    (checked : KnownInet kernel s t → s.datalen ≤ 65507 - getIpv4Optlen s.route {}) :
    WithinLimit kernel s t ↔ s.datalen ≤ documentedLimit s.route t.hops := by
  have hoptlen := getIpv4Optlen_main s.route
  rw [documentedLimit]
  constructor
  · intro h
    have hsize : s.datalen ≤ 65507 - getIpv4Optlen s.route {} := h.known.elim checked id
    by_cases hflags : s.route.optRroute = true ∨ s.route.optTimestamp ≠ none
    · rw [if_pos hflags] at hoptlen
      rw [if_pos (by tauto)]
      omega
    · rw [if_neg hflags] at hoptlen
      by_cases hhops : t.hops = []
      · rw [if_neg (by tauto)]
        omega
      · rw [if_pos (by tauto)]
        exact h.routed hhops (by tauto)
  · intro h
    constructor
    · intro hhops _
      rwa [if_pos (.inr (.inr hhops))] at h
    · apply Or.inr
      split at hoptlen <;> split at h <;> first | omega | tauto

theorem maxS_eq (family : Option Family) (t : Targets) (optlen : Nat) :
    maxS family t optlen =
      if t.inet = true ∨ (family = some .inet ∧ t.inet6 = false) then 65507 - optlen
      else 65527 := by
  have hinet : ICMP_MAX_DATALEN = 65507 := rfl
  have hinet6 : ICMPV6_MAX_DATALEN = 65527 := rfl
  unfold maxS
  rw [hinet, hinet6]
  cases t.inet <;> cases t.inet6 <;> rcases family with _ | _ | _ <;> rfl

theorem maxS_le (family : Option Family) (t : Targets) (optlen : Nat) :
    maxS family t optlen ≤ 65527 := by
  rw [maxS_eq]
  split <;> omega

/-- A family that can still be IPv4 is limited to it by an option or by the sockets. -/
theorem limitFamily_inet {socks : Sockets} {family : Option Family}
    (created : createSockets kernel family = some socks)
    (open4 : limitFamily socks family ≠ some .inet6) :
    limitFamily socks family = some .inet ↔
      family = some .inet ∨ (family = none ∧ kernel.sock6 = false) := by
  obtain ⟨sock4, sock6⟩ := kernel
  rcases family with _ | _ | _
  · cases sock4 <;> cases sock6 <;> cases created <;> simp_all [limitFamily]
  · simp [limitFamily]
  · exact absurd rfl open4

theorem tryResults_family {k : Kept} {targetAiFamily : Option Family} {results : List AddrInfo}
    {run : Family × Nat} (h : tryResults net o hops targetAiFamily k results = some run) :
    targetAiFamily = none ∨ targetAiFamily = some run.1 := by
  induction results generalizing k with
  | nil => cases h
  | cons ai rest ih =>
      rw [tryResults] at h
      split at h
      · exact ih h
      · rename_i hwanted
        split at h
        · exact ih h
        · cases h
          by_cases hnone : targetAiFamily = none
          · exact .inl hnone
          · exact .inr (not_not.mp fun hother => hwanted ⟨hnone, hother⟩)
        · cases h

/-- What a run that is accepted has passed. -/
theorem main_cases {invoked : Option Family} {args : List SizeArg} {t : Targets}
    {results : List AddrInfo} {run : Sized}
    (h : main kernel net invoked args t results = some run) :
    ∃ s socks, sizeOptions.final { aiFamily := invoked } args = some s ∧
      createSockets kernel s.aiFamily = some socks ∧
      s.datalen ≤ maxS (limitFamily socks s.aiFamily) t (getIpv4Optlen s.route {}) ∧
      tryResults net s.route t.hops (limitFamily socks s.aiFamily) {} results =
        some (run.family, run.optlen) ∧
      run.datalen = s.datalen := by
  obtain ⟨s, hparsed, hchecked⟩ := Option.bind_eq_some_iff.mp h
  obtain ⟨socks, hcreated, hrest⟩ := Option.bind_eq_some_iff.mp hchecked
  refine ⟨s, socks, hparsed, hcreated, ?_⟩
  simp only at hrest
  split at hrest
  · cases hrest
  · rename_i hsmall
    obtain ⟨tried, htried, hrun⟩ := Option.map_eq_some_iff.mp hrest
    subst hrun
    exact ⟨Nat.le_of_not_gt hsmall, htried, rfl⟩

/-- For every command line that is accepted: over IPv4 the packet stays below 65536 bytes
if and only if the size is within the documented limit, which is exactly when neither a
source route nor the family comes too late for the check. Over either family the packet
buffer holds the packet. -/
theorem size_enforced_iff (kernel : Sockets) (net : Network) (invoked : Option Family)
    (args : List SizeArg) (t : Targets) (results : List AddrInfo) (s : SizeOptions)
    (parsed : sizeOptions.final { aiFamily := invoked } args = some s) (run : Sized)
    (accepted : main kernel net invoked args t results = some run) :
    (run.family = .inet →
      (20 + run.optlen + 8 + run.datalen ≤ 65535 ↔
        run.datalen ≤ documentedLimit s.route t.hops) ∧
      (20 + run.optlen + 8 + run.datalen ≤ 65535 ↔ WithinLimit kernel s t)) ∧
      run.datalen + 8 ≤ MAXPACKET := by
  obtain ⟨s', socks, hparsed, hcreated, hsmall, htried, hdatalen⟩ := main_cases accepted
  rw [parsed] at hparsed
  cases hparsed
  rw [hdatalen]
  constructor
  · intro hinet
    rw [hinet] at htried
    have hoptlen := tryResults_inet (fun hset => by cases hset) htried
    have hlimit := documentedLimit_eq s.route t.hops
    have hdocumented : 20 + run.optlen + 8 + s.datalen ≤ 65535 ↔
        s.datalen ≤ documentedLimit s.route t.hops := by
      omega
    have hopen : limitFamily socks s.aiFamily ≠ some .inet6 := by
      rcases tryResults_family htried with hnone | hsome
      · simp [hnone]
      · simp [hsome]
    have hknown : KnownInet kernel s t →
        s.datalen ≤ 65507 - getIpv4Optlen s.route {} := by
      intro hknown
      rw [maxS_eq, if_pos] at hsmall
      · exact hsmall
      · rw [limitFamily_inet hcreated hopen]
        exact hknown
    exact ⟨hdocumented, hdocumented.trans (withinLimit_iff hknown).symm⟩
  · have hmax := maxS_le (limitFamily socks s.aiFamily) t (getIpv4Optlen s.route {})
    rw [MAXPACKET]
    omega

/-- The largest packet that `-4` lets pass, without hops. -/
theorem size_enforced_iff_largest :
    ((⟨.inet, 0, 65507⟩ : Sized).family = .inet →
      (20 + 0 + 8 + 65507 ≤ 65535 ↔ 65507 ≤ documentedLimit {} []) ∧
      (20 + 0 + 8 + 65507 ≤ 65535 ↔
        WithinLimit ⟨true, true⟩ { aiFamily := some .inet, datalen := 65507 } {})) ∧
      65507 + 8 ≤ MAXPACKET :=
  size_enforced_iff ⟨true, true⟩ {} none [.four, .size 65507] {} [.inet 0x0a000001]
    { aiFamily := some .inet, datalen := 65507 } rfl ⟨.inet, 0, 65507⟩ rfl

/-- With one hop and the same size the packet is 40 bytes too long. -/
theorem size_outgrows_route :
    ¬ ∀ (kernel : Sockets) (net : Network) (invoked : Option Family) (args : List SizeArg)
      (t : Targets) (results : List AddrInfo) (run : Sized),
      main kernel net invoked args t results = some run →
      (run.family = .inet → 20 + run.optlen + 8 + run.datalen ≤ 65535) ∧
        run.datalen + 8 ≤ MAXPACKET := by
  intro h
  have hrun := h ⟨true, true⟩ {} none [.four, .size 65507] { hops := [0x0a000002] }
    [.inet 0x0a000001] ⟨.inet, 40, 65507⟩ rfl
  exact absurd (hrun.1 rfl) (by decide)

end Coping.PacketSize
