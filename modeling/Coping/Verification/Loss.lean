import Mathlib.Order.Interval.Finset.Nat
import Coping.Library.Machine
import Coping.Ping.Finish
import Coping.Ping.Pinger

/-!
# Packet loss

Runs of `pinger` and `gather_statistics` over a network that loses, duplicates,
reorders and delays replies but does not invent them. `Session` keeps the probes
whose `send_probe` returned 0.

A reply that is counted can be assigned a probe of its own, as long as the marks
are those of the probes taken as transmitted. A call that fails with `EAGAIN`,
`ENOBUFS` or `ENOMEM` breaks this: it has cleared the mark of the next sequence
number without taking a probe as transmitted, so one cycle later a duplicate of the
probe that had the number before is counted once more.
-/

namespace Coping.Loss

open Finset

inductive Event where
  | call (c : PingerCall)
  | reply (r : Reply)

structure Session where
  ping : PingState
  /-- The probes for which `send_probe` returned 0. -/
  delivered : List Nat := []
  /-- The mark of the next sequence number was cleared by a call that is to be
  repeated, and was set before. -/
  forgotten : Bool := false

def forgottenAfter (s : Session) : Ending → Bool
  | .idle => s.forgotten
  | .sent | .hardError => false
  | .noBuffers | .again =>
      s.forgotten || marked s.ping.rts (low16 (s.ping.rts.ntransmitted + 1))

def step (family : Family) (sock : SockType) (s : Session) : Event → Option Session
  | .call c =>
      (pinger family sock s.ping c).map fun r =>
        { ping := r.state
          delivered :=
            if r.ending = .sent then (s.ping.rts.ntransmitted + 1) :: s.delivered
            else s.delivered
          forgotten := forgottenAfter s r.ending }
  | .reply r =>
      some { s with ping := { s.ping with rts := gatherStatistics s.ping.rts r } }

def machine (family : Family) (sock : SockType) : Machine Session Event where
  step := step family sock

/-- A good reply carries the sequence number of a probe that was sent. -/
def Delivered (s : Session) : Event → Prop
  | .call _ => True
  | .reply r => r.csfailed = false → ∃ k ∈ s.delivered, r.seq = low16 k

/-- No good reply carries the next sequence number while its mark is forgotten. -/
def Remembered (s : Session) : Event → Prop
  | .call _ => True
  | .reply r => r.csfailed = false →
      r.seq = low16 (s.ping.rts.ntransmitted + 1) → s.forgotten = false

/-! ## Every counted reply has a probe of its own -/

/-- The probes that the counted replies are assigned to. The last probe of each
sequence number is marked once it is answered. -/
structure Assignment (s : Session) (answered : Finset Nat) : Prop where
  card : answered.card = s.ping.rts.nreceived
  transmitted : answered ⊆ Icc 1 s.ping.rts.ntransmitted
  mark : ∀ k ∈ answered, s.ping.rts.ntransmitted < k + 65536 →
    marked s.ping.rts (low16 k) = true ∨
      (s.forgotten = true ∧ low16 k = low16 (s.ping.rts.ntransmitted + 1))

structure Sound (s : Session) : Prop where
  delivered : ∀ k ∈ s.delivered, k ∈ Icc 1 s.ping.rts.ntransmitted
  assignment : ∃ answered, Assignment s answered

theorem Sound.init (options : PingRts) : Sound { ping := { rts := options.start } } :=
  ⟨by simp, ∅, rfl, Finset.empty_subset _, by simp⟩

theorem Sound.nreceived_le {s : Session} (h : Sound s) :
    s.ping.rts.nreceived ≤ s.ping.rts.ntransmitted := by
  obtain ⟨answered, hassigned⟩ := h.assignment
  calc s.ping.rts.nreceived = answered.card := hassigned.card.symm
    _ ≤ (Icc 1 s.ping.rts.ntransmitted).card := card_le_card hassigned.transmitted
    _ = s.ping.rts.ntransmitted := by rw [Nat.card_Icc, Nat.add_sub_cancel]

/-- The last probe with the same sequence number. -/
theorem exists_last {n k : Nat} (hk : k ∈ Icc 1 n) :
    ∃ last ∈ Icc 1 n, n < last + 65536 ∧ low16 last = low16 k := by
  obtain ⟨hpos, hle⟩ := mem_Icc.mp hk
  refine ⟨k + 65536 * ((n - k) / 65536), mem_Icc.mpr ⟨by omega, by omega⟩, by omega, ?_⟩
  rw [low16_eq_iff]
  omega

theorem Sound.reply {s : Session} (h : Sound s) (r : Reply) (delivered : Delivered s (.reply r))
    (remembered : Remembered s (.reply r)) :
    Sound { s with ping := { s.ping with rts := gatherStatistics s.ping.rts r } } := by
  obtain ⟨answered, hassigned⟩ := h.assignment
  have hsent := gatherStatistics_ntransmitted s.ping.rts r
  have hcount := gatherStatistics_nreceived s.ping.rts r
  have hmarks := marked_gatherStatistics s.ping.rts r
  have hkept : ∀ k ∈ answered, s.ping.rts.ntransmitted < k + 65536 →
      marked (gatherStatistics s.ping.rts r) (low16 k) = true ∨
        (s.forgotten = true ∧ low16 k = low16 (s.ping.rts.ntransmitted + 1)) := by
    intro k hk hlast
    refine (hassigned.mark k hk hlast).imp_left ?_
    intro hmark
    rw [hmarks, hmark, Bool.true_or]
  refine ⟨fun k hk => ?_, ?_⟩
  · change k ∈ Icc 1 (gatherStatistics s.ping.rts r).ntransmitted
    rw [hsent]
    exact h.delivered k hk
  cases hnew : !r.csfailed && !marked s.ping.rts r.seq with
  | false =>
      refine ⟨answered, ?_, ?_, ?_⟩
      · change answered.card = (gatherStatistics s.ping.rts r).nreceived
        rw [hcount, hnew, hassigned.card]
        rfl
      · change answered ⊆ Icc 1 (gatherStatistics s.ping.rts r).ntransmitted
        rw [hsent]
        exact hassigned.transmitted
      · change ∀ k ∈ answered, (gatherStatistics s.ping.rts r).ntransmitted < k + 65536 → _ ∨
          (_ ∧ _ = low16 ((gatherStatistics s.ping.rts r).ntransmitted + 1))
        rw [hsent]
        exact hkept
  | true =>
      obtain ⟨hgood, hunmarked⟩ : r.csfailed = false ∧ marked s.ping.rts r.seq = false := by
        simpa using hnew
      obtain ⟨k, hk, hseq⟩ := delivered hgood
      obtain ⟨last, hlast, hrecent, hsame⟩ := exists_last (h.delivered k hk)
      -- The probe that the number stands for now has not been answered.
      have hfree : last ∉ answered := by
        intro hmem
        rw [← hsame] at hseq
        obtain hmark | ⟨hforgotten, hnext⟩ := hassigned.mark last hmem hrecent
        · rw [← hseq, hunmarked] at hmark
          cases hmark
        · rw [remembered hgood (hseq.trans hnext)] at hforgotten
          cases hforgotten
      refine ⟨insert last answered, ?_, ?_, ?_⟩
      · change (insert last answered).card = (gatherStatistics s.ping.rts r).nreceived
        rw [card_insert_of_notMem hfree, hcount, hnew, hassigned.card]
        rfl
      · change insert last answered ⊆ Icc 1 (gatherStatistics s.ping.rts r).ntransmitted
        rw [hsent]
        exact insert_subset hlast hassigned.transmitted
      · change ∀ k ∈ insert last answered,
          (gatherStatistics s.ping.rts r).ntransmitted < k + 65536 → _ ∨
            (_ ∧ _ = low16 ((gatherStatistics s.ping.rts r).ntransmitted + 1))
        rw [hsent]
        intro q hq hqlast
        obtain rfl | hq := mem_insert.mp hq
        · refine .inl ?_
          change marked (gatherStatistics s.ping.rts r) (low16 q) = true
          rw [hmarks, hgood, hsame, ← hseq, decide_eq_true rfl]
          exact Bool.or_true _
        · exact hkept q hq hqlast

theorem Sound.call {s : Session} (h : Sound s) {family : Family} {sock : SockType}
    {c : PingerCall} {t : Session} (called : step family sock s (.call c) = some t) :
    Sound t := by
  obtain ⟨r, hr, rfl⟩ := Option.map_eq_some_iff.mp called
  obtain ⟨hreceived, hsent, hmarks⟩ := pinger_counters hr
  obtain ⟨answered, hassigned⟩ := h.assignment
  have hmono : Icc 1 s.ping.rts.ntransmitted ⊆ Icc 1 r.state.rts.ntransmitted :=
    Icc_subset_Icc_right (by omega)
  refine ⟨fun k hk => ?_, answered, hassigned.card.trans hreceived.symm,
    hassigned.transmitted.trans hmono, fun k hk hlast => ?_⟩
  · change k ∈ ite _ _ _ at hk
    split at hk
    · next hok =>
        rw [hok] at hsent
        obtain rfl | hk := List.mem_cons.mp hk
        · exact mem_Icc.mpr ⟨by omega, hsent.ge⟩
        · exact hmono (h.delivered k hk)
    · exact hmono (h.delivered k hk)
  · change r.state.rts.ntransmitted < k + 65536 at hlast
    change marked r.state.rts (low16 k) = true ∨
      (forgottenAfter s r.ending = true ∧ low16 k = low16 (r.state.rts.ntransmitted + 1))
    obtain ⟨hpos, hle⟩ := mem_Icc.mp (hassigned.transmitted hk)
    have hbefore := hassigned.mark k hk (by omega)
    have hnext : low16 k = low16 (s.ping.rts.ntransmitted + 1) ↔
        k + 65536 = s.ping.rts.ntransmitted + 1 := by
      rw [low16_eq_iff]
      omega
    rw [hmarks, hsent]
    cases hending : r.ending with
    | idle => simpa [forgottenAfter, Ending.advances] using hbefore
    | sent | hardError =>
        have hother : low16 k ≠ low16 (s.ping.rts.ntransmitted + 1) := by
          rw [hending] at hsent
          change _ = s.ping.rts.ntransmitted + 1 at hsent
          rw [Ne, hnext]
          omega
        obtain hmark | ⟨-, hsame⟩ := hbefore
        · exact .inl (by simp [hother, hmark])
        · exact absurd hsame hother
    | noBuffers | again =>
        by_cases hsame : low16 k = low16 (s.ping.rts.ntransmitted + 1)
        · refine .inr ⟨?_, hsame⟩
          rw [hsame] at hbefore
          obtain hmark | ⟨hforgotten, -⟩ := hbefore
          · simp [forgottenAfter, hmark]
          · simp [forgottenAfter, hforgotten]
        · obtain hmark | ⟨-, habsurd⟩ := hbefore
          · exact .inl (by simp [hsame, hmark])
          · exact absurd habsurd hsame

theorem Sound.step {s t : Session} {e : Event} (h : Sound s) {family : Family} {sock : SockType}
    (allowed : Delivered s e ∧ Remembered s e) (stepped : step family sock s e = some t) :
    Sound t := by
  cases e with
  | call c => exact h.call stepped
  | reply r =>
      cases stepped
      exact h.reply r allowed.1 allowed.2

/-- No more replies are counted than probes transmitted, and every loss printed is
a percentage, in every run in which no late duplicate meets a forgotten mark. -/
theorem losses_sound (family : Family) (sock : SockType) (options : PingRts) (es : List Event)
    (delivered : (machine family sock).Guarded Delivered { ping := { rts := options.start } } es)
    (remembered :
      (machine family sock).Guarded Remembered { ping := { rts := options.start } } es) :
    (machine family sock).Always
      (fun s => s.ping.rts.nreceived ≤ s.ping.rts.ntransmitted ∧ LossSound s.ping.rts)
      { ping := { rts := options.start } } es := by
  have sound : (machine family sock).Always Sound { ping := { rts := options.start } } es :=
    Machine.Always.of_invariant (Sound.init options)
      (fun _ _ _ hs allowed stepped => hs.step allowed stepped) (delivered.and remembered)
  exact sound.mono fun s hs => ⟨hs.nreceived_le, LossSound.of_le hs.nreceived_le⟩

/-! ## A duplicate that is counted twice -/

/-- A call in second `n` that the kernel answers as given. -/
def callAt (n : Nat) (ret errno : Int) : PingerCall :=
  { clock := { tvSec := n }, attempts := [{ ret := ret, errno := errno }] }

def goodReply (n : Nat) : Reply := { cc := 64, seq := low16 n, csfailed := false }

/-- One probe a second, each answered at once. -/
def answeredProbes : Nat → List Event
  | 0 => []
  | n + 1 => answeredProbes n ++ [.call (callAt (n + 1) 64 0), .reply (goodReply (n + 1))]

/-- The options that the run depends on. -/
def settings (rts : PingRts) : Nat × Bool × Nat × Int × Bool × Int :=
  (rts.datalen, rts.exiting, rts.npackets, rts.preload, rts.optAdaptive, rts.interval)

/-- The state after `n` probes that were all answered. -/
structure AllAnswered (n : Nat) (s : Session) : Prop where
  ntransmitted : s.ping.rts.ntransmitted = n
  nreceived : s.ping.rts.nreceived = n
  delivered : ∀ k ∈ Icc 1 n, k ∈ s.delivered
  mark : ∀ seq, marked s.ping.rts seq = true ↔ ∃ k ∈ Icc 1 n, seq = low16 k
  options : settings s.ping.rts = (56, false, 0, 1, false, 1000)
  tokens : s.ping.tokens = 0
  curTime : s.ping.rts.curTime = { tvSec := n }

theorem settings_eq {rts : PingRts} {datalen npackets : Nat} {exiting optAdaptive : Bool}
    {preload interval : Int} :
    settings rts = (datalen, exiting, npackets, preload, optAdaptive, interval) ↔
      rts.datalen = datalen ∧ rts.exiting = exiting ∧ rts.npackets = npackets ∧
        rts.preload = preload ∧ rts.optAdaptive = optAdaptive ∧ rts.interval = interval := by
  simp only [settings, Prod.mk.injEq]

theorem AllAnswered.init : AllAnswered 0 { ping := { rts := PingRts.start {} } } where
  ntransmitted := rfl
  nreceived := rfl
  delivered := by simp
  mark seq := by
    have hmark : marked (PingRts.start {}) seq = false := Bitmap.contains_empty _
    change marked (PingRts.start {}) seq = true ↔ _
    rw [hmark]
    simp
  options := rfl
  tokens := rfl
  curTime := rfl

theorem AllAnswered.refill {n : Nat} {s : Session} (h : AllAnswered n s) (ret errno : Int) :
    refill s.ping.rts s.ping.tokens (callAt (n + 1) ret errno).clock = .send 0 := by
  obtain ⟨-, -, -, hpreload, -, hinterval⟩ := settings_eq.mp h.options
  unfold Coping.refill
  rw [h.curTime, h.tokens, hinterval, hpreload]
  split
  · rfl
  · have hsecond : ((((n + 1 : Nat) : Int) - n) * 1000 + ((0 : Int) - 0).tdiv 1000000) = 1000 := by
      simp only [sub_self, Int.zero_tdiv]
      omega
    dsimp only [callAt]
    rw [hsecond]
    rfl

/-- The probe of the next second is sent. -/
theorem AllAnswered.sent {n : Nat} {s : Session} (h : AllAnswered n s) :
    ∃ r, pinger .inet .dgram s.ping (callAt (n + 1) 64 0) = some r ∧ r.ending = .sent ∧
      r.state = probeSent
        { s.ping with
          rts := (ping4SendProbe { s.ping.rts with curTime := { tvSec := (n + 1 : Nat) } } {}).1
          tokens := 0 } := by
  obtain ⟨hdata, hrun, hmany, -⟩ := settings_eq.mp h.options
  have hlen : (64 : Int) = (Family.inet.sendProbe
      { s.ping.rts with curTime := { tvSec := (n + 1 : Nat) } } {}).2.length := by
    change (64 : Int) = (ping4SendProbe _ {}).2.length
    rw [ping4SendProbe_length _ _ (by rw [hdata]; decide), hdata]
    rfl
  rw [pinger_of_send _ _ _ _ hrun hmany (h.refill 64 0)]
  change ∃ r, Option.map _ (resend _ _ _ [{ ret := 64, errno := 0 }]) = some r ∧ _
  rw [resend, if_pos (.inr hlen)]
  exact ⟨_, rfl, rfl, rfl⟩

theorem Icc_one_succ (n : Nat) : Icc 1 (n + 1) = insert (n + 1) (Icc 1 n) := by
  ext k
  simp only [mem_insert, mem_Icc]
  omega

theorem AllAnswered.round {n : Nat} {s : Session} (h : AllAnswered n s) :
    ∃ t, (machine .inet .dgram).final s
        [.call (callAt (n + 1) 64 0), .reply (goodReply (n + 1))] = some t ∧
      AllAnswered (n + 1) t ∧
      (machine .inet .dgram).Guarded (fun s e => Delivered s e ∧ Remembered s e) s
        [.call (callAt (n + 1) 64 0), .reply (goodReply (n + 1))] := by
  obtain ⟨r, hr, hending, hstate⟩ := h.sent
  obtain ⟨hreceived, hsent, hmarks⟩ := pinger_counters hr
  rw [hending, h.ntransmitted] at hsent hmarks
  obtain ⟨s₁, hs₁⟩ :
      ∃ s₁ : Session, s₁ = { ping := r.state, delivered := (n + 1) :: s.delivered } :=
    ⟨_, rfl⟩
  have hcall : (machine .inet .dgram).step s (.call (callAt (n + 1) 64 0)) = some s₁ := by
    change step .inet .dgram s (.call (callAt (n + 1) 64 0)) = some s₁
    rw [step, hr, Option.map_some, hending, if_pos rfl, h.ntransmitted, hs₁]
    rfl
  have hunmarked : marked r.state.rts (low16 (n + 1)) = false := by simp [hmarks]
  have hguard : Delivered s₁ (.reply (goodReply (n + 1))) ∧
      Remembered s₁ (.reply (goodReply (n + 1))) := by
    rw [hs₁]
    exact ⟨fun _ => ⟨n + 1, List.mem_cons_self, rfl⟩, fun _ _ => rfl⟩
  -- Neither the call nor the reply touches the options or the clock.
  have hsettings : settings r.state.rts = settings s.ping.rts := by
    rw [hstate]
    rfl
  obtain ⟨-, -, -, -, hplain, -⟩ := settings_eq.mp (hsettings.trans h.options)
  have hsteady : ∀ {α : Type} (field : PingRts → α), Steady field →
      field (gatherStatistics r.state.rts (goodReply (n + 1))) = field r.state.rts :=
    fun field steady => gatherStatistics_field field steady _ _ fun hadaptive =>
      absurd (hplain.symm.trans hadaptive) (by decide)
  refine ⟨{ s₁ with
    ping := { s₁.ping with rts := gatherStatistics s₁.ping.rts (goodReply (n + 1)) } }, ?_, ?_, ?_⟩
  · rw [Machine.final_cons, hcall]
    rfl
  · rw [hs₁]
    refine ⟨?_, ?_, ?_, ?_, ?_, ?_, ?_⟩
    · exact (gatherStatistics_ntransmitted _ _).trans hsent
    · change (gatherStatistics r.state.rts (goodReply (n + 1))).nreceived = n + 1
      rw [gatherStatistics_nreceived, hreceived, h.nreceived, goodReply, hunmarked]
      rfl
    · intro k hk
      obtain ⟨hpos, hle⟩ := mem_Icc.mp hk
      obtain rfl | hlt := Nat.eq_or_lt_of_le hle
      · exact List.mem_cons_self
      · exact List.mem_cons_of_mem _ (h.delivered k (mem_Icc.mpr ⟨hpos, by omega⟩))
    · intro seq
      change marked (gatherStatistics r.state.rts (goodReply (n + 1))) seq = true ↔ _
      have hlast : (∃ k ∈ Icc 1 (n + 1), seq = low16 k) ↔
          (∃ k ∈ Icc 1 n, seq = low16 k) ∨ seq = low16 (n + 1) := by
        rw [Icc_one_succ]
        simp [or_comm]
      rw [hlast, ← h.mark, marked_gatherStatistics, hmarks]
      by_cases hseq : seq = low16 (n + 1) <;> simp [hseq, goodReply]
    · exact (hsteady settings {}).trans (hsettings.trans h.options)
    · change r.state.tokens = 0
      rw [hstate]
      rfl
    · have hclock : r.state.rts.curTime = { tvSec := (n + 1 : Nat) } := by
        rw [hstate]
        rfl
      have hkept : (gatherStatistics r.state.rts (goodReply (n + 1))).curTime =
          r.state.rts.curTime := hsteady (·.curTime) {}
      exact hkept.trans hclock
  · refine ⟨⟨trivial, trivial⟩, ?_⟩
    intro t ht
    cases hcall.symm.trans ht
    exact ⟨hguard, fun _ _ => trivial⟩

theorem AllAnswered.run (n : Nat) :
    ∃ s, (machine .inet .dgram).final { ping := { rts := PingRts.start {} } } (answeredProbes n) =
        some s ∧ AllAnswered n s ∧
      (machine .inet .dgram).Guarded (fun s e => Delivered s e ∧ Remembered s e)
        { ping := { rts := PingRts.start {} } } (answeredProbes n) := by
  induction n with
  | zero => exact ⟨_, rfl, AllAnswered.init, trivial⟩
  | succ n ih =>
      obtain ⟨s, hrun, hs, hguarded⟩ := ih
      obtain ⟨t, hround, ht, hlast⟩ := hs.round
      refine ⟨t, ?_, ht, ?_⟩
      · rw [answeredProbes, Machine.final_append, hrun]
        exact hround
      · rw [answeredProbes, Machine.guarded_append]
        refine ⟨hguarded, ?_⟩
        intro u hu
        cases hrun.symm.trans hu
        exact hlast

/-- The send of probe 65537 is to be repeated; its sequence number is that of probe 1,
whose mark is gone. -/
theorem AllAnswered.again {s : Session} (h : AllAnswered 65536 s) :
    ∃ t, (machine .inet .dgram).step s (.call (callAt 65537 (-1) EAGAIN)) = some t ∧
      t.ping.rts.ntransmitted = 65536 ∧ t.ping.rts.nreceived = 65536 ∧ 1 ∈ t.delivered ∧
      marked t.ping.rts (low16 1) = false := by
  obtain ⟨-, hrun, hmany, -⟩ := settings_eq.mp h.options
  have hrefill := h.refill (-1) EAGAIN
  obtain ⟨r, hr, hending⟩ : ∃ r, pinger .inet .dgram s.ping (callAt 65537 (-1) EAGAIN) = some r ∧
      r.ending = .again := by
    rw [pinger_of_send _ _ _ _ hrun hmany hrefill]
    change ∃ r, Option.map _ (resend _ _ _ [{ ret := -1, errno := EAGAIN }]) = some r ∧ _
    have hfailed : ∀ n : Nat, ¬((-1 : Int) = 0 ∨ (-1 : Int) = n) := by omega
    rw [resend, if_neg (hfailed _), if_neg (by decide), if_neg (by decide), if_pos rfl]
    exact ⟨_, rfl, rfl⟩
  obtain ⟨hreceived, hsent, hmarks⟩ := pinger_counters hr
  refine ⟨{ ping := r.state, delivered := s.delivered, forgotten := forgottenAfter s .again },
    ?_, ?_, hreceived.trans h.nreceived, h.delivered 1 (by simp), ?_⟩
  · change step .inet .dgram s (.call (callAt 65537 (-1) EAGAIN)) = _
    rw [step, hr, Option.map_some, hending]
    rfl
  · rw [hending, h.ntransmitted] at hsent
    exact hsent
  · have hsame : low16 1 = low16 (65536 + 1) := by decide
    change marked r.state.rts (low16 1) = false
    rw [hmarks, hending, h.ntransmitted, hsame]
    simp

theorem losses_sound_answered :
    (machine .inet .dgram).Always
      (fun s => s.ping.rts.nreceived ≤ s.ping.rts.ntransmitted ∧ LossSound s.ping.rts)
      { ping := { rts := PingRts.start {} } } (answeredProbes 3) := by
  obtain ⟨-, -, -, hallowed⟩ := AllAnswered.run 3
  exact losses_sound .inet .dgram {} (answeredProbes 3)
    (hallowed.mono fun _ _ allowed => allowed.1) (hallowed.mono fun _ _ allowed => allowed.2)

/-- A full socket buffer in second 65537 and then a second copy of the first reply. -/
def retryAndDuplicate : List Event := [.call (callAt 65537 (-1) EAGAIN), .reply (goodReply 1)]

theorem AllAnswered.countedTwice {s : Session} (h : AllAnswered 65536 s) :
    (machine .inet .dgram).Guarded Delivered s retryAndDuplicate ∧
      ∃ t, (machine .inet .dgram).final s retryAndDuplicate = some t ∧
        t.ping.rts.ntransmitted = 65536 ∧ t.ping.rts.nreceived = 65537 := by
  obtain ⟨t, hcall, hsent, hreceived, hdelivered, hunmarked⟩ := h.again
  refine ⟨⟨trivial, fun v hv => ?_⟩,
    { t with ping := { t.ping with rts := gatherStatistics t.ping.rts (goodReply 1) } }, ?_, ?_, ?_⟩
  · cases hcall.symm.trans hv
    exact ⟨fun _ => ⟨1, hdelivered, rfl⟩, fun _ _ => trivial⟩
  · rw [retryAndDuplicate, Machine.final_cons, hcall]
    rfl
  · exact (gatherStatistics_ntransmitted _ _).trans hsent
  · change (gatherStatistics t.ping.rts (goodReply 1)).nreceived = 65537
    rw [gatherStatistics_nreceived, hreceived, goodReply, hunmarked]
    rfl

/-- More replies than probes, 65537 of 65536: as many probes as there are sequence
numbers are answered, the next one meets a full socket buffer, and the first reply
arrives once more. -/
theorem losses_sound_fails_on_retry :
    ∃ es, (machine .inet .dgram).Guarded Delivered { ping := { rts := PingRts.start {} } } es ∧
      (∃ t, (machine .inet .dgram).final { ping := { rts := PingRts.start {} } } es = some t ∧
        t.ping.rts.ntransmitted = 65536 ∧ t.ping.rts.nreceived = 65537) ∧
      ¬(machine .inet .dgram).Always
        (fun s => s.ping.rts.nreceived ≤ s.ping.rts.ntransmitted ∧ LossSound s.ping.rts)
        { ping := { rts := PingRts.start {} } } es := by
  -- A literal would be evaluated as a list of that length.
  obtain ⟨n, hn⟩ : ∃ n, n = 65536 := ⟨_, rfl⟩
  obtain ⟨s, hrun, hs, hguarded⟩ := AllAnswered.run n
  rw [hn] at hs
  obtain ⟨hlast, t, ht, hsent, hreceived⟩ := hs.countedTwice
  have hfinal : (machine .inet .dgram).final { ping := { rts := PingRts.start {} } }
      (answeredProbes n ++ retryAndDuplicate) = some t := by
    rw [Machine.final_append, hrun]
    exact ht
  refine ⟨answeredProbes n ++ retryAndDuplicate, ?_, ⟨t, hfinal, hsent, hreceived⟩, ?_⟩
  · rw [Machine.guarded_append]
    refine ⟨hguarded.mono fun _ _ allowed => allowed.1, ?_⟩
    intro u hu
    rw [Option.some.inj (hu.symm.trans hrun)]
    exact hlast
  · intro sound
    have hle := (sound.final hfinal).1
    rw [hsent, hreceived] at hle
    exact absurd hle (by decide)

end Coping.Loss
