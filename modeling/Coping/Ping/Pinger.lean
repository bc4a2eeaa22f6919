import Coping.Ping.ErrorQueue
import Coping.Ping.Statistics

/-!
# The pinger

One call of `pinger` of `ping_common.c`. Its two static variables stand beside the
runtime state in `PingState`. A call reads the clock once and then sends; the list
`attempts` says how the kernel answers each send, and a call that it does not
carry to the end, or that aborts, has no result.

`Pinged.ending` records by which `return` the call was left. `pinger_cases` lists
what each of them has done to the state.
-/

namespace Coping

open CInt

structure PingState where
  rts : PingRts
  oomCount : Int := 0
  tokens : Int := 0

/-- One `send_probe` and what follows from it. -/
structure Attempt where
  /-- The time that goes into the packet. -/
  now : Timeval := {}
  /-- What `sendto` returns. -/
  ret : Int
  errno : Int := 0
  queue : ErrorQueue := .failed EAGAIN

/-- What a call meets. -/
structure PingerCall where
  clock : Timespec
  attempts : List Attempt

inductive Ending where
  /-- Nothing was due. -/
  | idle
  | sent
  /-- A hard error, taken as a transmitted probe. -/
  | hardError
  /-- Queue overflow or no memory; to be tried again. -/
  | noBuffers
  /-- Full socket buffer; to be tried again. -/
  | again
  deriving DecidableEq

/-- The call takes its probe as transmitted. -/
def Ending.advances : Ending → Bool
  | .sent | .hardError => true
  | .idle | .noBuffers | .again => false

structure Pinged where
  state : PingState
  ending : Ending
  /-- The return value, the time to wait in milliseconds. -/
  wait : Int
  /-- The packets handed to the kernel, in order. -/
  sends : List (List UInt8) := []
  output : List Output := []

/-- What the token count allows. -/
inductive Refill where
  | wait (ms : Int)
  | send (tokens : Int)

/-- The check that packets < rate*time + preload. -/
def refill (rts : PingRts) (tokens : Int) (clock : Timespec) : Refill :=
  if rts.curTime.tvSec = 0 ∧ rts.curTime.tvNsec = 0 then
    .send (toInt32 (rts.interval * (rts.preload - 1)))
  else
    let passed := (clock.tvSec - rts.curTime.tvSec) * 1000 +
      (clock.tvNsec - rts.curTime.tvNsec).tdiv 1000000
    -- Unlimited flood: without replies it is held at 100 packets a second.
    if rts.interval = 0 ∧ passed < MIN_INTERVAL_MS ∧ inFlight rts ≥ rts.preload then
      .wait (toInt32 (MIN_INTERVAL_MS - passed))
    else
      let ntokens := min (passed + tokens) (rts.interval * rts.preload)
      if ntokens < rts.interval then .wait (toInt32 (rts.interval - ntokens))
      else .send (toInt32 (ntokens - rts.interval))

def noAnswerYet (rts : PingRts) : List Output :=
  if rts.optOutstanding ∧ rts.ntransmitted > 0 ∧ rcvdTest rts (low16 rts.ntransmitted) = 0 then
    printTimestamp rts ++ [.noAnswerYet (rts.ntransmitted % MAX_DUP_CHK)]
  else []

/-- The very silly dot of a flood. -/
def floodDot (rts : PingRts) : List Output :=
  if ¬rts.optQuiet ∧ rts.optFlood ∧
      ((rts.preload < rts.screenWidth ∧ rts.pipesize < rts.screenWidth) ∨
        inFlight rts < rts.screenWidth) then
    [.stdout "."]
  else []

def probeSent (s : PingState) : PingState :=
  { s with rts := advanceNtransmitted s.rts, oomCount := 0 }

/-- Hard local error. Pretend we sent packet. -/
def probeFailed (s : PingState) : PingState :=
  { s with rts := advanceNtransmitted s.rts, tokens := 0 }

/-- Slowdown by a part of the round-trip time. -/
def slowedAddend (rtt : UInt64) (rttAddend : Int) : Int :=
  toInt32 (rttAddend + if rtt < 8 * 50000 then ((rtt / 8).toNat : Int) else 50000)

def slowDown (rts : PingRts) : PingRts :=
  { rts with rttAddend := slowedAddend rts.rtt rts.rttAddend }

/-- Device queue overflow or OOM. Packet is not sent. -/
def queueFull (s : PingState) : PingState where
  rts := if s.rts.optAdaptive then updateInterval (slowDown s.rts) else slowDown s.rts
  oomCount := s.oomCount + 1
  tokens := 0

/-- Socket buffer is full. -/
def socketFull (s : PingState) : PingState :=
  { s with tokens := toInt32 (s.tokens + s.rts.interval) }

def noresInterval (rts : PingRts) : Int := min (schint (rts.interval.tdiv 2)) 500

/-- The code behind the label `hard_local_error`. -/
def hardLocalError (s : PingState) (result errno : Int) (packet : List UInt8) : Pinged where
  state := probeFailed s
  ending := .hardError
  wait := schint s.rts.interval
  sends := [packet]
  output :=
    if result = 0 ∧ ¬s.rts.optQuiet then
      if s.rts.optFlood then [.stdout "E"] else [.pingError errno "sendmsg"]
    else []

/-- Compatibility with old linuces. -/
def confirmUnsupported (r : ErrorResult) : Bool :=
  r.result = 0 && r.rts.confirmFlag ≠ 0 && r.errno = EINVAL

def forgetConfirm (rts : PingRts) : PingRts := { rts with confirmFlag := 0 }

/-- The code behind the label `resend`. -/
def resend (family : Family) (sock : SockType) (s : PingState) : List Attempt → Option Pinged
  | [] => none
  | a :: rest =>
    let packet := (family.sendProbe s.rts a.now).2
    let s := { s with rts := (family.sendProbe s.rts a.now).1 }
    if a.ret = 0 ∨ a.ret = packet.length then
      some
        { state := probeSent s
          ending := .sent
          wait := toInt32 (s.rts.interval - s.tokens)
          sends := [packet]
          output := floodDot (advanceNtransmitted s.rts) }
    else if a.ret > 0 then none
    else if a.errno = ENOBUFS ∨ a.errno = ENOMEM then
      let s := queueFull s
      if toUInt32 (s.oomCount * noresInterval s.rts) < s.rts.lingertime / 1000 then
        some { state := s, ending := .noBuffers, wait := noresInterval s.rts, sends := [packet] }
      else some (hardLocalError s 0 a.errno packet)
    else if a.errno = EAGAIN then
      some { state := socketFull s, ending := .again, wait := MIN_INTERVAL_MS, sends := [packet] }
    else if a.errno = EMSGSIZE then
      some (hardLocalError { s with rts := countError s.rts } 0 a.errno packet)
    else
      match family.receiveErrorMsg s.rts sock a.errno a.queue with
      | none => none
      | some r =>
        if r.result > 0 then
          let ended := hardLocalError { s with rts := r.rts } 0 r.errno packet
          some { ended with output := r.output ++ ended.output }
        else
          let unsupported := confirmUnsupported r
          let s := { s with rts := if unsupported then forgetConfirm r.rts else r.rts }
          if unsupported ∨ r.errno = 0 then
            (resend family sock s rest).map fun ended =>
              { ended with sends := packet :: ended.sends, output := r.output ++ ended.output }
          else
            let ended := hardLocalError s r.result r.errno packet
            some { ended with output := r.output ++ ended.output }

def pinger (family : Family) (sock : SockType) (s : PingState) (call : PingerCall) :
    Option Pinged :=
  if s.rts.exiting ∨ (s.rts.npackets ≠ 0 ∧ s.rts.ntransmitted ≥ s.rts.npackets ∧
      s.rts.deadline = 0) then
    some { state := s, ending := .idle, wait := 1000 }
  else
    match refill s.rts s.tokens call.clock with
    | .wait ms => some { state := s, ending := .idle, wait := ms }
    | .send tokens =>
      let s := { s with rts := { s.rts with curTime := call.clock }, tokens := tokens }
      (resend family sock s call.attempts).map fun ended =>
        { ended with output := noAnswerYet s.rts ++ ended.output }

/-- A call that has a token left sends. -/
theorem pinger_of_send (family : Family) (sock : SockType) (s : PingState) (call : PingerCall)
    {tokens : Int} (running : s.rts.exiting = false) (unlimited : s.rts.npackets = 0)
    (tokenLeft : refill s.rts s.tokens call.clock = .send tokens) :
    pinger family sock s call =
      (resend family sock
        { s with rts := { s.rts with curTime := call.clock }, tokens := tokens }
        call.attempts).map fun ended =>
          { ended with
            output := noAnswerYet { s.rts with curTime := call.clock } ++ ended.output } := by
  rw [pinger, if_neg (by rw [running, unlimited]; simp), tokenLeft]

/-! ## What a call changes -/

/-- A field that neither sending nor reading the error queue touches. -/
structure Untouched {α : Type} (field : PingRts → α) : Prop where
  cleared : ∀ rts seq, field (rcvdClear rts seq) = field rts := by intros; rfl
  sent : ∀ (rts : PingRts) packet, field { rts with outpack := packet } = field rts := by
    intros; rfl
  sent6 : ∀ (rts : PingRts) packet datalen,
    field { rts with outpack := packet, datalen := datalen, confirm := 0 } = field rts := by
    intros; rfl
  acknowledged : ∀ rts seq, field (acknowledge rts seq) = field rts := by intros; rfl
  counted : ∀ rts, field (countError rts) = field rts := by intros; rfl
  forgotten : ∀ rts, field (forgetConfirm rts) = field rts := by intros; rfl

/-- A field that no call touches at all. -/
structure Constant {α : Type} (field : PingRts → α) : Prop extends Untouched field where
  clocked : ∀ (rts : PingRts) t, field { rts with curTime := t } = field rts := by intros; rfl
  advanced : ∀ rts, field (advanceNtransmitted rts) = field rts := by intros; rfl
  slowed : ∀ rts, field (slowDown rts) = field rts := by intros; rfl
  updated : ∀ rts, field (updateInterval rts) = field rts := by intros; rfl

/-- `rts'` is `rts` after at least one attempt to send the next probe. -/
structure Attempted (rts rts' : PingRts) : Prop where
  field : ∀ {α : Type} (field : PingRts → α), Untouched field → field rts' = field rts
  marked : ∀ seq, marked rts' seq =
    (!decide (seq = low16 (rts.ntransmitted + 1)) && marked rts seq)

/-- The state in which a call ends, given the one in which its last attempt was
answered. -/
def Ended (s : PingState) (ending : Ending) (s' : PingState) : Prop :=
  match ending with
  | .idle => False
  | .sent => s' = probeSent s
  | .hardError => s' = probeFailed s ∨ s' = probeFailed (queueFull s)
  | .noBuffers => s' = queueFull s
  | .again => s' = socketFull s

theorem queueFull_field {α : Type} (field : PingRts → α)
    (slowed : ∀ rts, field (slowDown rts) = field rts)
    (updated : ∀ rts, field (updateInterval rts) = field rts) (s : PingState) :
    field (queueFull s).rts = field s.rts := by
  unfold queueFull
  dsimp only
  split
  · exact (updated _).trans (slowed _)
  · exact slowed _

theorem Ended.field {α : Type} {s s' : PingState} {ending : Ending} (field : PingRts → α)
    (advanced : ∀ rts, field (advanceNtransmitted rts) = field rts)
    (slowed : ∀ rts, field (slowDown rts) = field rts)
    (updated : ∀ rts, field (updateInterval rts) = field rts) (h : Ended s ending s') :
    field s'.rts = field s.rts := by
  cases ending with
  | idle => cases h
  | sent =>
      cases h
      exact advanced _
  | hardError =>
      obtain rfl | rfl := h
      · exact advanced _
      · exact (advanced _).trans (queueFull_field field slowed updated s)
  | noBuffers =>
      cases h
      exact queueFull_field field slowed updated s
  | again =>
      cases h
      rfl

theorem Ended.ntransmitted {s s' : PingState} {ending : Ending} (h : Ended s ending s') :
    s'.rts.ntransmitted = s.rts.ntransmitted + ending.advances.toNat := by
  have hslow := queueFull_field (·.ntransmitted) (fun _ => rfl) (fun _ => rfl) s
  cases ending with
  | idle => cases h
  | sent =>
      cases h
      rfl
  | hardError =>
      obtain rfl | rfl := h
      · rfl
      · exact congrArg (· + 1) hslow
  | noBuffers =>
      cases h
      exact hslow
  | again =>
      cases h
      rfl

theorem Attempted.sendProbe (family : Family) (rts : PingRts) (now : Timeval) :
    Attempted rts (family.sendProbe rts now).1 where
  field f h := family.sendProbe_field f h.cleared h.sent h.sent6 rts now
  marked := family.marked_sendProbe rts now

theorem Attempted.countError {rts rts' : PingRts} (h : Attempted rts rts') :
    Attempted rts (countError rts') where
  field f hf := (hf.counted rts').trans (h.field f hf)
  marked := h.marked

theorem Attempted.forgetConfirm {rts rts' : PingRts} (h : Attempted rts rts') :
    Attempted rts (forgetConfirm rts') where
  field f hf := (hf.forgotten rts').trans (h.field f hf)
  marked := h.marked

theorem Attempted.receive {rts rts' : PingRts} {family : Family} {sock : SockType} {errno : Int}
    {queue : ErrorQueue} {r : ErrorResult} (h : Attempted rts rts')
    (received : family.receiveErrorMsg rts' sock errno queue = some r) :
    Attempted rts r.rts where
  field f hf := (Family.receiveErrorMsg_field f hf.acknowledged hf.counted received).trans
    (h.field f hf)
  marked seq := (Family.receiveErrorMsg_field (Coping.marked · seq) (fun _ _ => rfl)
    (fun _ => rfl) received).trans (h.marked seq)

theorem Attempted.trans {rts rts' rts'' : PingRts} (h : Attempted rts rts')
    (h' : Attempted rts' rts'') : Attempted rts rts'' where
  field f hf := (h'.field f hf).trans (h.field f hf)
  marked seq := by
    rw [h'.marked, h.marked, h.field (·.ntransmitted) {}, ← Bool.and_assoc, Bool.and_self]

/-- The kernel drops the packet for lack of memory. -/
def Attempt.overflows (a : Attempt) : Prop := a.errno = ENOBUFS ∨ a.errno = ENOMEM

/-- The kernel does not take the packet, and not for lack of memory or of room. -/
structure Attempt.Refused (a : Attempt) : Prop where
  failed : a.ret < 0
  memory : ¬a.overflows
  room : a.errno ≠ EAGAIN

/-- The state that a message of the queue leaves, when it is not taken as a hard error. -/
def unconfirmed (e : ErrorResult) : PingRts :=
  if confirmUnsupported e then forgetConfirm e.rts else e.rts

theorem unconfirmed_field {α : Type} (field : PingRts → α)
    (forgotten : ∀ rts, field (forgetConfirm rts) = field rts) (e : ErrorResult) :
    field (unconfirmed e) = field e.rts := by
  rw [unconfirmed]
  split
  · exact forgotten e.rts
  · rfl

theorem Attempted.unconfirmed {rts : PingRts} {e : ErrorResult} (h : Attempted rts e.rts) :
    Attempted rts (unconfirmed e) := by
  rw [Coping.unconfirmed]
  split
  · exact h.forgetConfirm
  · exact h

/-- What an attempt comes to, from the state `s` that has built the packet. -/
inductive Resend (family : Family) (sock : SockType) (s : PingState) (packet : List UInt8)
    (a : Attempt) (rest : List Attempt) : Pinged → Prop where
  | sent (accepted : 0 ≤ a.ret) :
      Resend family sock s packet a rest
        { state := probeSent s
          ending := .sent
          wait := toInt32 (s.rts.interval - s.tokens)
          sends := [packet]
          output := floodDot (advanceNtransmitted s.rts) }
  | noBuffers (overflows : a.overflows) :
      Resend family sock s packet a rest
        { state := queueFull s
          ending := .noBuffers
          wait := noresInterval (queueFull s).rts
          sends := [packet] }
  | lingered (overflows : a.overflows) :
      Resend family sock s packet a rest (hardLocalError (queueFull s) 0 a.errno packet)
  | again :
      Resend family sock s packet a rest
        { state := socketFull s, ending := .again, wait := MIN_INTERVAL_MS, sends := [packet] }
  | tooLong (refused : a.Refused) (errno : a.errno = EMSGSIZE) :
      Resend family sock s packet a rest
        (hardLocalError { s with rts := countError s.rts } 0 a.errno packet)
  | reported {e : ErrorResult} (refused : a.Refused)
      (received : family.receiveErrorMsg s.rts sock a.errno a.queue = some e)
      (result : e.result > 0) (output : List Output) :
      Resend family sock s packet a rest
        { hardLocalError { s with rts := e.rts } 0 e.errno packet with output := output }
  | resent {e : ErrorResult} {ended : Pinged} (refused : a.Refused)
      (received : family.receiveErrorMsg s.rts sock a.errno a.queue = some e)
      (result : ¬e.result > 0) (cleared : confirmUnsupported e = true ∨ e.errno = 0)
      (next : resend family sock { s with rts := unconfirmed e } rest = some ended) :
      Resend family sock s packet a rest
        { ended with sends := packet :: ended.sends, output := e.output ++ ended.output }
  | failed {e : ErrorResult} (refused : a.Refused)
      (received : family.receiveErrorMsg s.rts sock a.errno a.queue = some e)
      (output : List Output) :
      Resend family sock s packet a rest
        { hardLocalError { s with rts := unconfirmed e } e.result e.errno packet with
          output := output }

theorem resend_step {family : Family} {sock : SockType} {s : PingState} {a : Attempt}
    {rest : List Attempt} {r : Pinged} (h : resend family sock s (a :: rest) = some r) :
    Resend family sock { s with rts := (family.sendProbe s.rts a.now).1 }
      (family.sendProbe s.rts a.now).2 a rest r := by
  rw [resend] at h
  split at h
  · cases h
    exact .sent (by omega)
  split at h
  · cases h
  split at h
  next hfull =>
    dsimp only at h
    split at h
    · cases h
      exact .noBuffers hfull
    · cases h
      exact .lingered hfull
  next hmemory =>
  split at h
  · cases h
    exact .again
  next hroom =>
  have hrefused : a.Refused := ⟨by omega, hmemory, hroom⟩
  split at h
  next hlong =>
    cases h
    exact .tooLong hrefused hlong
  split at h
  · cases h
  next e he =>
  split at h
  next hresult =>
    cases h
    exact .reported hrefused he hresult _
  next hresult =>
  dsimp only at h
  split at h
  next hcleared =>
    obtain ⟨ended, hended, rfl⟩ := Option.map_eq_some_iff.mp h
    exact .resent hrefused he hresult hcleared hended
  · cases h
    exact .failed hrefused he _

/-- How a call ends whose last attempt `a` leaves `s`: the kernel takes the packet only
in the call that has sent, and only an overflow slows the pinger down. -/
structure Answered (a : Attempt) (s : PingState) (r : Pinged) : Prop where
  ended : Ended s r.ending r.state
  accepted : r.ending = .sent → 0 ≤ a.ret := by intro h; cases h
  kept : ¬a.overflows → r.state.rts.interval = s.rts.interval := by intros; rfl
  sends : r.sends ≠ [] := by exact List.cons_ne_nil _ _

/-- Whatever the answers of the kernel, a call that sends leaves the state of its
last attempt and one of the endings. -/
theorem resend_cases {family : Family} {sock : SockType} {s : PingState}
    {attempts : List Attempt} {r : Pinged} (h : resend family sock s attempts = some r) :
    ∃ rts, ∃ a ∈ attempts, Attempted s.rts rts ∧ Answered a { s with rts := rts } r := by
  induction attempts generalizing s r with
  | nil => cases h
  | cons a rest ih =>
      have hsend := Attempted.sendProbe family s.rts a.now
      have hmem : a ∈ a :: rest := List.mem_cons_self
      cases resend_step h with
      | sent accepted => exact ⟨_, a, hmem, hsend, { ended := rfl, accepted := fun _ => accepted }⟩
      | noBuffers overflows =>
          exact ⟨_, a, hmem, hsend, { ended := rfl, kept := fun hfits => absurd overflows hfits }⟩
      | lingered overflows =>
          exact ⟨_, a, hmem, hsend,
            { ended := .inr rfl, kept := fun hfits => absurd overflows hfits }⟩
      | again => exact ⟨_, a, hmem, hsend, { ended := rfl }⟩
      | tooLong => exact ⟨_, a, hmem, hsend.countError, { ended := .inl rfl }⟩
      | reported _ received => exact ⟨_, a, hmem, hsend.receive received, { ended := .inl rfl }⟩
      | resent _ received _ _ next =>
          obtain ⟨rts, last, hlast, hrest, hanswer⟩ := ih next
          exact ⟨rts, last, List.mem_cons_of_mem a hlast,
            (hsend.receive received).unconfirmed.trans hrest,
            { hanswer with sends := List.cons_ne_nil _ _ }⟩
      | failed _ received =>
          exact ⟨_, a, hmem, (hsend.receive received).unconfirmed, { ended := .inl rfl }⟩

/-- What `main_loop` reacts to. -/
inductive LoopEvent where
  | call (c : PingerCall)
  | reply (r : Reply)
  /-- A message on the error queue, or none, with the `errno` before it. -/
  | error (errno : Int) (queue : ErrorQueue)

/-- A call sends nothing and changes nothing, or it spends a token, attempts the
next probe and ends in one of the four other ways. -/
theorem pinger_cases {family : Family} {sock : SockType} {s : PingState} {call : PingerCall}
    {r : Pinged} (h : pinger family sock s call = some r) :
    (r.ending = .idle ∧ r.state = s ∧ r.sends = []) ∨
      ∃ tokens rts, refill s.rts s.tokens call.clock = .send tokens ∧
        Attempted { s.rts with curTime := call.clock } rts ∧
        Ended { s with rts := rts, tokens := tokens } r.ending r.state ∧ r.sends ≠ [] := by
  simp only [pinger] at h
  split at h
  · cases h
    exact .inl ⟨rfl, rfl, rfl⟩
  split at h
  · cases h
    exact .inl ⟨rfl, rfl, rfl⟩
  next tokens htokens =>
    obtain ⟨ended, hended, rfl⟩ := Option.map_eq_some_iff.mp h
    obtain ⟨rts, _, -, hattempted, hanswer⟩ := resend_cases hended
    exact .inr ⟨tokens, rts, htokens, hattempted, hanswer.ended, hanswer.sends⟩

theorem pinger_field {α : Type} (field : PingRts → α) (h : Constant field)
    {family : Family} {sock : SockType} {s : PingState} {call : PingerCall} {r : Pinged}
    (hr : pinger family sock s call = some r) : field r.state.rts = field s.rts := by
  obtain ⟨-, hstate, -⟩ | ⟨tokens, rts, -, hattempted, hended, -⟩ := pinger_cases hr
  · rw [hstate]
  · rw [hended.field field h.advanced h.slowed h.updated]
    exact (hattempted.field field h.toUntouched).trans (h.clocked s.rts call.clock)

theorem queueFull_interval (s : PingState) :
    (queueFull s).rts.interval =
      if s.rts.optAdaptive then (updateInterval (slowDown s.rts)).interval
      else s.rts.interval := by
  rw [queueFull]
  dsimp only
  split <;> rfl

theorem Ended.interval {s s' : PingState} {ending : Ending} (h : Ended s ending s') :
    s'.rts.interval = s.rts.interval ∨
      s.rts.optAdaptive = true ∧ s'.rts.interval = (updateInterval (slowDown s.rts)).interval := by
  have hfull : (queueFull s).rts.interval = s.rts.interval ∨ s.rts.optAdaptive = true ∧
      (queueFull s).rts.interval = (updateInterval (slowDown s.rts)).interval := by
    rw [queueFull_interval]
    split
    next hadaptive => exact .inr ⟨hadaptive, rfl⟩
    · exact .inl rfl
  cases ending with
  | idle => cases h
  | sent =>
      cases h
      exact .inl rfl
  | hardError =>
      obtain rfl | rfl := h
      · exact .inl rfl
      · exact hfull
  | noBuffers =>
      cases h
      exact hfull
  | again =>
      cases h
      exact .inl rfl

/-- A call changes the interval in adaptive mode only, by slowing down. -/
theorem pinger_interval {family : Family} {sock : SockType} {s : PingState} {call : PingerCall}
    {r : Pinged} (h : pinger family sock s call = some r) :
    r.state.rts.interval = s.rts.interval ∨ s.rts.optAdaptive = true ∧
      r.state.rts.interval = (updateInterval (slowDown s.rts)).interval := by
  obtain ⟨-, hstate, -⟩ | ⟨tokens, rts, -, hattempted, hended, -⟩ := pinger_cases h
  · rw [hstate]
    exact .inl rfl
  have hinterval : rts.interval = s.rts.interval := hattempted.field (·.interval) {}
  have hadaptive : rts.optAdaptive = s.rts.optAdaptive :=
    hattempted.field (·.optAdaptive) {}
  have huid : rts.uid = s.rts.uid := hattempted.field (·.uid) {}
  have hrtt : rts.rtt = s.rts.rtt := hattempted.field (·.rtt) {}
  have haddend : rts.rttAddend = s.rts.rttAddend := hattempted.field (·.rttAddend) {}
  have hslow : (updateInterval (slowDown rts)).interval =
      (updateInterval (slowDown s.rts)).interval := by
    change nextInterval rts.uid rts.rtt (slowedAddend rts.rtt rts.rttAddend) rts.interval = _
    rw [huid, hrtt, haddend, hinterval]
    rfl
  have hcase := hended.interval
  change _ = rts.interval ∨ rts.optAdaptive = true ∧ _ = _ at hcase
  rwa [hinterval, hadaptive, hslow] at hcase

/-- Which answer of the kernel a call ends with. -/
theorem pinger_answer {family : Family} {sock : SockType} {s : PingState} {call : PingerCall}
    {r : Pinged} (h : pinger family sock s call = some r) (sends : r.sends ≠ []) :
    ∃ a ∈ call.attempts, (r.ending = .sent → 0 ≤ a.ret) ∧
      (¬a.overflows → r.state.rts.interval = s.rts.interval) := by
  simp only [pinger] at h
  split at h
  · cases h
    exact absurd rfl sends
  split at h
  · cases h
    exact absurd rfl sends
  · obtain ⟨ended, hended, rfl⟩ := Option.map_eq_some_iff.mp h
    obtain ⟨rts, a, hmem, hattempted, hanswer⟩ := resend_cases hended
    exact ⟨a, hmem, hanswer.accepted, fun hfits =>
      (hanswer.kept hfits).trans (hattempted.field (·.interval) {})⟩

/-- What a call does to the counters and the marks. -/
theorem pinger_counters {family : Family} {sock : SockType} {s : PingState} {call : PingerCall}
    {r : Pinged} (h : pinger family sock s call = some r) :
    r.state.rts.nreceived = s.rts.nreceived ∧
      r.state.rts.ntransmitted = s.rts.ntransmitted + r.ending.advances.toNat ∧
      ∀ seq, marked r.state.rts seq =
        ((decide (r.ending = .idle) || !decide (seq = low16 (s.rts.ntransmitted + 1))) &&
          marked s.rts seq) := by
  obtain ⟨hidle, hstate, -⟩ | ⟨tokens, rts, -, hattempted, hended, -⟩ := pinger_cases h
  · rw [hidle, hstate]
    exact ⟨rfl, rfl, fun seq => by simp⟩
  · have hsends : r.ending ≠ .idle := by
      intro hidle
      rw [hidle] at hended
      cases hended
    refine ⟨?_, ?_, fun seq => ?_⟩
    · rw [hended.field (·.nreceived) (fun _ => rfl) (fun _ => rfl) (fun _ => rfl)]
      exact hattempted.field (·.nreceived) {}
    · rw [hended.ntransmitted]
      exact congrArg (· + _) (hattempted.field (·.ntransmitted) {})
    · rw [hended.field (marked · seq) (fun _ => rfl) (fun _ => rfl) (fun _ => rfl),
        decide_eq_false hsends, Bool.false_or]
      exact hattempted.marked seq

end Coping
