import Coping.Verification.MainLoop
import Coping.Verification.Md5
import Coping.Verification.NonceCache
import Coping.Verification.ProbeBytes

/-!
# Node information queries and their replies

The nonce of a query is its number, and behind it a part of the digest of a secret and that
number. A reply is counted under the number that it brings back, if the digest is the one of that
number. So a reply to a query is counted under the number of the query, whatever happens in
between, and a message that is not made from a nonce of this program is not counted at all. The
digests go through the static variables of `niquery_nonce`, in every query and in every check.
-/

namespace Coping.NiExchange

open ProbeBytes NodeInfo

/-- The bytes of the nonce of a number, with the digest of the standard. -/
noncomputable def nonceBytes (secret : List UInt8) (seq : UInt16) : List UInt8 :=
  be16 seq ++ (MessageDigest.digest (secret ++ be16 seq)).take 6

/-- What `niquery_nonce` passes to `iputils_MD5Update`. -/
def nonceChunks (secret : Md5.Chunk) (b0 b1 : UInt8) : List Md5.Chunk :=
  [secret, ⟨[b0, b1], by change 2 < 2 ^ 32; decide⟩]

/-- The digests of the host are those of `md5.c`, over whatever is on the stack. -/
structure Computes (host : NonceHost) (input : CBuffer 64) (secret : Md5.Chunk) : Prop where
  bytes : host.secret = secret.bytes
  md5 : ∀ b0 b1, Md5.hashChunks host.order input (nonceChunks secret b0 b1) =
    some (host.md5 (host.secret ++ [b0, b1])).toList

/-! ## The program and its static variables -/

/-- A query that was handed to the kernel. -/
structure Query where
  number : UInt16
  packet : List UInt8

/-- The program, the static variables of `niquery_nonce`, and a record of the queries. -/
structure Asking where
  loop : LoopState
  oldRr : List UInt8
  static : NonceCache := {}
  queries : List Query := []

inductive Event where
  | call (c : PingerCall)
  | error (errno : Int) (queue : ErrorQueue)
  /-- A message is in the buffer. -/
  | deliver (m : Received) (buf : Buffer)

section Program

variable (host : NonceHost)

/-- The program at a call of `niquery_nonce`. -/
def Asking.serve (s : Asking) (fill : Bool) : LoopState :=
  { s.loop with
    ping := { s.loop.ping with
      rts := { s.loop.ping.rts with ni := served host s.static fill s.loop.ping.rts.ni } } }

/-- The number of the next query. -/
def Asking.number (s : Asking) : UInt16 := low16 (s.loop.ping.rts.ntransmitted + 1)

/-- Every packet that is built is a call of `niquery_fill_nonce`. -/
def fills (s : Asking) (r : Pinged) : List NonceCall :=
  if niqueryIsEnabled s.loop.ping.rts.ni then r.sends.map fun _ => .fill s.number else []

/-- The nonce in the buffer. -/
def nonceIn (buf : Buffer) : Nonce := ⟨buf 8, buf 9, Vector.ofFn fun i : Fin 6 => buf (10 + i)⟩

/-- Every node information reply is a call of `niquery_check_nonce`. -/
def checks (m : Received) (buf : Buffer) : List NonceCall :=
  if 8 ≤ m.cc ∧ buf 0 = IPUTILS_NI_ICMP6_REPLY then [.check (nonceIn buf)] else []

variable (sock : SockType) (prAddr : PrAddr) (settings : Settings)

def Asking.parsed (s : Asking) (m : Received) (buf : Buffer) : Parsed :=
  Family.inet6.parseReply prAddr settings sock (s.serve host false).ping.rts s.oldRr (packet6 m buf)

/-- `main_loop` on IPv6, with the calls that share the static variables. -/
def asking : Machine Asking Event where
  step s
    | .call c =>
        (pinger .inet6 sock (s.serve host true).ping c).bind fun r =>
          ((mainLoop .inet6 sock).step (s.serve host true) (.call c)).map fun loop =>
            { s with
              loop := loop
              static := Calls.after (NonceCall.run host) s.static (fills s r)
              queries := r.sends.map (⟨s.number, ·⟩) ++ s.queries }
    | .error errno queue =>
        ((mainLoop .inet6 sock).step s.loop (.error errno queue)).map fun loop =>
          { s with loop := loop }
    | .deliver m buf =>
        let parsed := s.parsed host sock prAddr settings m buf
        some
          { s with
            loop := { s.loop with ping := { s.loop.ping with rts := parsed.rts } }
            oldRr := parsed.oldRr
            static := Calls.after (NonceCall.run host) s.static (checks m buf) }

end Program

/-! ## Nonces -/

section Nonces

variable {host : NonceHost} {input : CBuffer 64} {secret : Md5.Chunk}

theorem Computes.md5_eq (h : Computes host input secret) (b0 b1 : UInt8) :
    (host.md5 (host.secret ++ [b0, b1])).toList =
      MessageDigest.digest (secret.bytes ++ [b0, b1]) := by
  have hhash := Md5.hashChunks_eq_digest host.order input (nonceChunks secret b0 b1)
  rw [h.md5] at hhash
  exact Option.some.inj hhash

theorem Computes.bytes_nonceOf (h : Computes host input secret) (seq : UInt16) :
    (nonceOf host seq).bytes = nonceBytes secret.bytes seq := by
  rw [nonceBytes, be16_eq, ← h.md5_eq]
  simp only [Nonce.bytes, nonceOf, digestOf, digestHead]
  rw [Vector.toList_take]

/-- What a query carries, whatever the static variables were before. -/
theorem Computes.filled (h : Computes host input secret) {static : NonceCache}
    (cached : Cached host static) (ni : PingNi) (seq : UInt16) :
    Coping.niqueryFillNonce (served host static true ni) seq = nonceBytes secret.bytes seq := by
  rw [fill_served, niqueryFillNonce_eq cached, h.bytes_nonceOf]

end Nonces

/-- The nonce is behind the header of a query. -/
theorem query_nonce {rts : PingRts} (enabled : niqueryIsEnabled rts.ni = true)
    (fits : 16 + rts.ni.subject.length ≤ MAXPACKET) (now : Timeval) :
    ((ping6SendProbe rts now).2.drop 8).take 8 =
      Coping.niqueryFillNonce rts.ni (low16 (rts.ntransmitted + 1)) := by
  obtain ⟨header, hheader, hlength⟩ : ∃ header, header =
      [IPUTILS_NI_ICMP6_QUERY, UInt8.ofInt rts.ni.subjectType] ++ le16 0 ++
        be16 (UInt16.ofInt rts.ni.query) ++ le16 rts.ni.flag ∧ header.length = 8 := ⟨_, rfl, rfl⟩
  have hnonce := length_niqueryFillNonce rts.ni (low16 (rts.ntransmitted + 1))
  have hpacket : (ping6SendProbe rts now).2 = (buildNiquery rts).1.bytes.take
      (16 + rts.ni.subject.length) := by
    rw [ping6SendProbe, if_pos enabled]
    rfl
  rw [hpacket, slice_take (by omega), buildNiquery, ← hheader]
  have hwhole : (header ++ Coping.niqueryFillNonce rts.ni (low16 (rts.ntransmitted + 1)) ++
      rts.ni.subject).length = 16 + rts.ni.subject.length := by
    rw [List.length_append, List.length_append, hlength, hnonce]
  rw [slice_write_inside (by decide) (by omega) (by omega), Nat.sub_zero, List.append_assoc,
    List.drop_left' hlength, List.take_left' hnonce]

section Reading

variable (m : Received) (buf : Buffer)

/-- The nonce of a reply is read as it stands in the buffer. -/
theorem packet6_nonce :
    (packet6 m buf).ni.nonceSeq = seqOf (nonceIn buf) ∧
      (packet6 m buf).ni.nonceDigest = (nonceIn buf).digest :=
  ⟨ntohs_load16 (buf 8) (buf 9), rfl⟩

theorem memory_nonce : memory buf 8 8 = (nonceIn buf).bytes := rfl

/-- The reply that is handed to the statistics. -/
def countedReply (seq : UInt16) : Reply := { loadReply buf m.cc false m with seq := seq }

end Reading

section Parsing

variable {host : NonceHost} {sock : SockType} {prAddr : PrAddr} {settings : Settings}
variable {s : Asking} {m : Received} {buf : Buffer}

/-- A reply is counted if `niquery_check_nonce` accepts its nonce, under the number in it. -/
theorem parsed_eq (type : buf 0 = IPUTILS_NI_ICMP6_REPLY) (long : 8 ≤ m.cc) :
    let parsed := s.parsed host sock prAddr settings m buf
    let rts := (s.serve host false).ping.rts
    if 0 ≤ (NodeInfo.niqueryCheckNonce host s.static (nonceIn buf)).2 then
      parsed.notOurs = false ∧
        parsed.rts = gatherStatistics rts (countedReply m buf (seqOf (nonceIn buf)))
    else parsed.notOurs = true ∧ parsed.rts = rts := by
  obtain ⟨hseq, hdigest⟩ := packet6_nonce m buf
  have hlong : ¬(packet6 m buf).reply.cc < 8 := by
    change ¬(m.cc : Int) < 8
    omega
  have htype : (packet6 m buf).type = IPUTILS_NI_ICMP6_REPLY := type
  have hecho : ¬(packet6 m buf).type = ICMP6_ECHO_REPLY := by
    rw [htype]
    decide
  have hcheck : Coping.niqueryCheckNonce (s.serve host false).ping.rts.ni (packet6 m buf).ni =
      true ↔ 0 ≤ (NodeInfo.niqueryCheckNonce host s.static (nonceIn buf)).2 :=
    check_served s.static s.loop.ping.rts.ni hseq hdigest
  have hcounted : (packet6 m buf).counted.reply =
      countedReply m buf (seqOf (nonceIn buf)) := by
    rw [Packet.counted, if_neg hecho, hseq]
    rfl
  dsimp only
  rw [Asking.parsed, Family.parseReply, ping6ParseReply, if_neg hlong, if_neg hecho, if_pos htype]
  split
  next haccepted =>
    rw [if_neg (not_not.mpr (hcheck.mpr haccepted))]
    exact ⟨rfl, congrArg (gatherStatistics _) hcounted⟩
  next hrejected =>
    rw [if_pos fun h => hrejected (hcheck.mp h)]
    exact ⟨rfl, rfl⟩

end Parsing

/-! ## Runs -/

/-- A query carries the nonce of its number. -/
def Carries (secret : List UInt8) (s : Asking) : Prop :=
  ∀ q ∈ s.queries, (q.packet.drop 8).take 8 = nonceBytes secret q.number

/-- A reply with the nonce of a query is counted under the number of the query, and one with the
nonce of no number changes nothing. -/
def Counts (host : NonceHost) (sock : SockType) (prAddr : PrAddr) (settings : Settings)
    (secret : List UInt8) (s : Asking) : Event → Prop
  | .deliver m buf =>
      let parsed := s.parsed host sock prAddr settings m buf
      let rts := (s.serve host false).ping.rts
      buf 0 = IPUTILS_NI_ICMP6_REPLY → 8 ≤ m.cc →
        (∀ q ∈ s.queries, memory buf 8 8 = (q.packet.drop 8).take 8 →
          parsed.notOurs = false ∧
            parsed.rts = gatherStatistics rts (countedReply m buf q.number)) ∧
        ((∀ seq, memory buf 8 8 ≠ nonceBytes secret seq) →
          parsed.notOurs = true ∧ parsed.rts = rts)
  | _ => True

/-- The static variables are in order, and the program asks the same all the time. -/
structure Asked (host : NonceHost) (secret : List UInt8) (ni : PingNi) (s : Asking) : Prop where
  cached : Cached host s.static
  same : ∃ digest, s.loop.ping.rts.ni = { ni with digest := digest }
  carries : Carries secret s

section Runs

variable {host : NonceHost} {input : CBuffer 64} {secret : Md5.Chunk} {sock : SockType}
variable {prAddr : PrAddr} {settings : Settings} {ni : PingNi} {s t : Asking} {e : Event}

/-- Every packet of a row of attempts is built for the same number. -/
theorem resend_packets {family : Family} {s : PingState} {attempts : List Attempt} {r : Pinged}
    (h : resend family sock s attempts = some r) :
    ∀ packet ∈ r.sends, ∃ rts now, rts.ni = s.rts.ni ∧ rts.ntransmitted = s.rts.ntransmitted ∧
      packet = (family.sendProbe rts now).2 := by
  induction attempts generalizing s r with
  | nil => cases h
  | cons a rest ih =>
      have hfirst : ∀ packet ∈ [(family.sendProbe s.rts a.now).2],
          ∃ rts now, rts.ni = s.rts.ni ∧ rts.ntransmitted = s.rts.ntransmitted ∧
            packet = (family.sendProbe rts now).2 := by
        intro packet hmem
        exact ⟨s.rts, a.now, rfl, rfl, List.mem_singleton.mp hmem⟩
      cases resend_step h with
      | sent => exact hfirst
      | noBuffers => exact hfirst
      | lingered => exact hfirst
      | again => exact hfirst
      | tooLong => exact hfirst
      | reported => exact hfirst
      | failed => exact hfirst
      | @resent e ended _ received _ _ next =>
          have hkept := ((Attempted.sendProbe family s.rts a.now).receive received).unconfirmed
          intro packet hmem
          obtain hnew | hlater := List.mem_cons.mp hmem
          · exact hfirst packet (List.mem_singleton.mpr hnew)
          · obtain ⟨rts, now, hni, hnumber, hpacket⟩ := ih next packet hlater
            exact ⟨rts, now, hni.trans (hkept.field (·.ni) {}),
              hnumber.trans (hkept.field (·.ntransmitted) {}), hpacket⟩

theorem pinger_packets {family : Family} {s : PingState} {c : PingerCall} {r : Pinged}
    (h : pinger family sock s c = some r) :
    ∀ packet ∈ r.sends, ∃ rts now, rts.ni = s.rts.ni ∧ rts.ntransmitted = s.rts.ntransmitted ∧
      packet = (family.sendProbe rts now).2 := by
  simp only [pinger] at h
  split at h
  · cases h
    exact fun _ hmem => absurd hmem List.not_mem_nil
  split at h
  · cases h
    exact fun _ hmem => absurd hmem List.not_mem_nil
  · obtain ⟨ended, hended, rfl⟩ := Option.map_eq_some_iff.mp h
    have hpackets := resend_packets hended
    exact hpackets

theorem asking_call {c : PingerCall}
    (step : (asking host sock prAddr settings).step s (.call c) = some t) :
    ∃ r, pinger .inet6 sock (s.serve host true).ping c = some r ∧
      t.loop.ping.rts = r.state.rts ∧
      t.static = Calls.after (NonceCall.run host) s.static (fills s r) ∧
      t.queries = r.sends.map (⟨s.number, ·⟩) ++ s.queries := by
  obtain ⟨r, hr, hstep⟩ := Option.bind_eq_some_iff.mp step
  obtain ⟨loop, hloop, rfl⟩ := Option.map_eq_some_iff.mp hstep
  obtain ⟨pass, hpass, rfl⟩ := Option.map_eq_some_iff.mp hloop
  obtain ⟨r', hr', rfl⟩ := Option.map_eq_some_iff.mp hpass
  cases hr.symm.trans hr'
  exact ⟨r, hr, rfl, rfl, rfl⟩

/-- What is asked is the same at every call of `niquery_nonce`. -/
theorem Asked.serve (h : Asked host secret.bytes ni s) (fill : Bool) :
    ∃ digest, (s.serve host fill).ping.rts.ni = { ni with digest := digest } := by
  obtain ⟨digest, hsame⟩ := h.same
  refine ⟨(served host s.static fill s.loop.ping.rts.ni).digest, ?_⟩
  simp only [Asking.serve, served, hsame]

theorem Asked.call (h : Asked host secret.bytes ni s) (computes : Computes host input secret)
    (enabled : niqueryIsEnabled ni = true) (fits : 16 + ni.subject.length ≤ MAXPACKET)
    {c : PingerCall} (step : (asking host sock prAddr settings).step s (.call c) = some t) :
    Asked host secret.bytes ni t := by
  obtain ⟨r, hr, hrts, hstatic, hqueries⟩ := asking_call step
  obtain ⟨digest, hsame⟩ := h.serve true
  constructor
  · rw [hstatic]
    exact Calls.after_invariant h.cached (fun _ c h => cached_run h c) _
  · refine ⟨digest, ?_⟩
    rw [hrts, ← hsame]
    exact pinger_field (·.ni) {} hr
  · intro q hq
    rw [hqueries] at hq
    obtain hnew | hold := List.mem_append.mp hq
    · obtain ⟨packet, hpacket, rfl⟩ := List.mem_map.mp hnew
      obtain ⟨rts, now, hni, hnumber, rfl⟩ := pinger_packets hr packet hpacket
      have hasked : rts.ni = { ni with digest := digest } := hni.trans hsame
      have hquery := @query_nonce rts (by rw [hasked]; exact enabled) (by rw [hasked]; exact fits)
        now
      rw [hni, hnumber] at hquery
      exact hquery.trans (computes.filled h.cached _ _)
    · exact h.carries q hold

theorem Asked.error (h : Asked host secret.bytes ni s) {errno : Int} {queue : ErrorQueue}
    (step : (asking host sock prAddr settings).step s (.error errno queue) = some t) :
    Asked host secret.bytes ni t := by
  obtain ⟨loop, hloop, rfl⟩ := Option.map_eq_some_iff.mp step
  obtain ⟨r, hr, rfl⟩ := Option.map_eq_some_iff.mp hloop
  obtain ⟨digest, hsame⟩ := h.same
  refine ⟨h.cached, ⟨digest, ?_⟩, h.carries⟩
  exact (Family.receiveErrorMsg_field (·.ni) (fun _ _ => rfl) (fun _ => rfl) hr).trans hsame

theorem Asked.deliver (h : Asked host secret.bytes ni s) {m : Received} {buf : Buffer}
    (step : (asking host sock prAddr settings).step s (.deliver m buf) = some t) :
    Asked host secret.bytes ni t := by
  obtain ⟨digest, hsame⟩ := h.serve false
  cases step
  refine ⟨Calls.after_invariant h.cached (fun _ c h => cached_run h c) _, ⟨digest, ?_⟩, h.carries⟩
  have habsorbed := MainLoop.absorbed_parseReply .inet6 prAddr settings sock
    (s.serve host false).ping.rts s.oldRr (packet6 m buf)
  exact (habsorbed.field (·.ni) {} (fun _ => rfl) fun _ => rfl).trans hsame

theorem Asked.step (h : Asked host secret.bytes ni s) (computes : Computes host input secret)
    (enabled : niqueryIsEnabled ni = true) (fits : 16 + ni.subject.length ≤ MAXPACKET)
    (step : (asking host sock prAddr settings).step s e = some t) :
    Asked host secret.bytes ni t := by
  cases e with
  | call => exact h.call computes enabled fits step
  | error => exact h.error step
  | deliver => exact h.deliver step

theorem Asked.counts (h : Asked host secret.bytes ni s) (computes : Computes host input secret)
    (e : Event) : Counts host sock prAddr settings secret.bytes s e := by
  cases e with
  | call => trivial
  | error => trivial
  | deliver m buf =>
      intro htype hlong
      have hparsed := @parsed_eq host sock prAddr settings s m buf htype hlong
      rw [niqueryCheckNonce_eq h.cached] at hparsed
      constructor
      · intro q hq hback
        rw [h.carries q hq, memory_nonce, ← computes.bytes_nonceOf] at hback
        have hnonce : nonceIn buf = nonceOf host q.number := Nonce.bytes_inj hback
        rw [hnonce, seqOf_nonceOf, if_pos rfl] at hparsed
        exact (if_pos (Int.natCast_nonneg _)).mp hparsed
      · intro hforged
        have hnone : ¬nonceIn buf = nonceOf host (seqOf (nonceIn buf)) := by
          intro hnonce
          refine hforged (seqOf (nonceIn buf)) ?_
          rw [memory_nonce, ← computes.bytes_nonceOf, ← hnonce]
        rw [if_neg hnone] at hparsed
        exact hparsed

end Runs

/-- In every run of the program, from static variables that were never used, every query carries
the nonce of its number, a reply that brings the nonce of a query back is counted under the number
of the query, and one with the nonce of no number changes nothing. -/
theorem ni_exchange (host : NonceHost) (input : CBuffer 64) (secret : Md5.Chunk) (sock : SockType)
    (prAddr : PrAddr) (settings : Settings) (loop : LoopState) (oldRr : List UInt8)
    (es : List Event) (computes : Computes host input secret)
    (enabled : niqueryIsEnabled loop.ping.rts.ni = true)
    (fits : 16 + loop.ping.rts.ni.subject.length ≤ MAXPACKET) :
    (asking host sock prAddr settings).Always (Carries secret.bytes)
        { loop := loop, oldRr := oldRr } es ∧
      (asking host sock prAddr settings).Guarded (Counts host sock prAddr settings secret.bytes)
        { loop := loop, oldRr := oldRr } es := by
  have hstart : Asked host secret.bytes loop.ping.rts.ni { loop := loop, oldRr := oldRr } :=
    ⟨cached_start host, ⟨_, rfl⟩, fun _ hq => absurd hq List.not_mem_nil⟩
  have hfree : (asking host sock prAddr settings).Guarded (fun _ _ => True)
      { loop := loop, oldRr := oldRr } es := Machine.guarded_of_forall fun _ _ => trivial
  constructor
  · exact (Machine.Always.of_invariant hstart
      (fun _ _ _ h _ hstep => h.step computes enabled fits hstep) hfree).mono fun _ h => h.carries
  · exact Machine.Guarded.of_invariant hstart
      (fun _ _ _ h _ hstep => h.step computes enabled fits hstep)
      (fun _ e h _ => h.counts computes e) hfree

/-! ## A query about a name -/

def noSecret : Md5.Chunk := ⟨[], by decide⟩

noncomputable def plainHost : NonceHost where
  order := .little
  md5 message := ⟨(MessageDigest.digest message).toArray, MessageDigest.length_digest message⟩
  secret := []

theorem plainHost_computes (input : CBuffer 64) : Computes plainHost input noSecret where
  bytes := rfl
  md5 b0 b1 := (Md5.hashChunks_eq_digest .little input (nonceChunks noSecret b0 b1)).trans rfl

/-- Before the first query. -/
def nameLoop : LoopState where
  ping := { rts := { ni := { query := 2 } } }

/-- A refusal that brings back the nonce of the first query. -/
noncomputable def refusal : Buffer := fun i =>
  if i = 0 then IPUTILS_NI_ICMP6_REPLY
  else if i = 1 then 1
  else ((List.replicate 8 0 ++ nonceBytes [] 1)[i]?).getD 0

/-- What is on the stack. -/
def zeroInput : CBuffer 64 := ⟨List.replicate 64 0, List.length_replicate⟩

/-- The query goes out, and the refusal comes back twice. -/
noncomputable def refusedEvents : List Event :=
  [.call { clock := { tvSec := 1 }, attempts := [{ now := {}, ret := 0 }] },
    .deliver { cc := 16, host := ⟨.empty, .empty⟩ } refusal,
    .deliver { cc := 16, host := ⟨.empty, .empty⟩ } refusal]

theorem ni_exchange_refused :
    (asking plainHost .dgram (fun _ => ⟨.empty, .empty⟩) {}).Always (Carries [])
        { loop := nameLoop, oldRr := [] } refusedEvents ∧
      (asking plainHost .dgram (fun _ => ⟨.empty, .empty⟩) {}).Guarded
        (Counts plainHost .dgram (fun _ => ⟨.empty, .empty⟩) {} [])
        { loop := nameLoop, oldRr := [] } refusedEvents :=
  ni_exchange plainHost zeroInput noSecret .dgram (fun _ => ⟨.empty, .empty⟩) {} nameLoop []
    refusedEvents (plainHost_computes zeroInput) (by decide) (by decide)

end Coping.NiExchange
