import Coping.Ping.Probe

/-!
# The error queue of the socket

`ping4_receive_error_msg` of `ping.c` and `ping6_receive_error_msg` of
`ping6_common.c`. What `recvmsg` finds in the queue is the argument `queue`; a
function that ends the program has no result. `errno` is passed in and out.
-/

namespace Coping

def EINTR : Int := 4

def EAGAIN : Int := 11

def ENOMEM : Int := 12

def EINVAL : Int := 22

def EMSGSIZE : Int := 90

def ENOBUFS : Int := 105

def SO_EE_ORIGIN_LOCAL : UInt8 := 1

def SO_EE_ORIGIN_ICMP : UInt8 := 2

def SO_EE_ORIGIN_ICMP6 : UInt8 := 3

inductive SockType where
  | dgram
  | raw
  deriving DecidableEq

def isOurs (rts : PingRts) (sock : SockType) (id : UInt16) : Bool :=
  sock = .dgram || (id.toNat : Int) = rts.ident

/-- `struct sock_extended_err`. -/
structure SockExtendedErr where
  eeErrno : Int
  eeOrigin : UInt8
  eeType : UInt8 := 0
  eeCode : UInt8 := 0
  eeInfo : Nat := 0

/-- A message in the error queue. -/
structure QueuedError where
  /-- The number of bytes of the offending packet that were received. -/
  res : Nat := 8
  /-- The destination of the offending packet, for either family. -/
  target : UInt32 := 0
  target6 : BitVec 128 := 0
  type : UInt8
  id : UInt16
  sequence : UInt16
  /-- The control message of the family's level and type, if there is one. -/
  ee : Option SockExtendedErr
  /-- Setting the ICMP filter fails. -/
  filterRefused : Bool := false

/-- What `recvmsg` on the error queue yields. -/
inductive ErrorQueue where
  | failed (errno : Int)
  | message (m : QueuedError)

/-- Output to the terminal, with the texts of the source. -/
inductive Output where
  /-- `write_stdout`. -/
  | stdout (text : String)
  /-- `print_timestamp`, where the option asks for it. -/
  | timestamp
  /-- `error` and `ping_error`; an `errnum` of zero adds no text. -/
  | error (errnum : Int) (text : String)
  | pingError (errnum : Int) (text : String)
  /-- `ping_print_error_packet` and the description of the ICMP message. -/
  | errorPacket (icmpSeq : UInt16) (type code : UInt8) (info : Nat)
  | noAnswerYet (icmpSeq : Nat)
  deriving DecidableEq

def printTimestamp (rts : PingRts) : List Output :=
  if rts.optPtimeofday then [.timestamp] else []

/-- What a receive function leaves behind. -/
structure ErrorResult where
  rts : PingRts
  errno : Int
  result : Int
  output : List Output := []

def countError (rts : PingRts) : PingRts := { rts with nerrors := rts.nerrors + 1 }

/-- An error that the own host reports. In quiet mode it is not counted. -/
def localError (rts : PingRts) (errno : Int) (e : SockExtendedErr) (tooLong : Output) :
    ErrorResult :=
  if rts.optQuiet then { rts := rts, errno := errno, result := -1 }
  else
    { rts := countError rts
      errno := errno
      result := -1
      output :=
        if rts.optFlood then [.stdout "E"]
        else if e.eeErrno ≠ EMSGSIZE then [.error e.eeErrno "local error"]
        else [tooLong] }

/-- The line about an error that the network reports. -/
def netErrorOutput (rts : PingRts) (m : QueuedError) (e : SockExtendedErr) : List Output :=
  if rts.optQuiet then []
  else if rts.optFlood then [.stdout "\x08E"]
  else printTimestamp rts ++ [.errorPacket m.sequence e.eeType e.eeCode e.eeInfo]

/-- `-local_errors` where `recvmsg` fails. -/
def queueFailed (rts : PingRts) (saved errno : Int) : ErrorResult :=
  { rts := rts, errno := saved, result := if errno = EAGAIN ∨ errno = EINTR then -1 else 0 }

def ping4ReceiveErrorMsg (rts : PingRts) (sock : SockType) (errno : Int) :
    ErrorQueue → Option ErrorResult
  | .failed queueErrno => some (queueFailed rts errno queueErrno)
  | .message m =>
    match m.ee with
    | none => none
    | some e =>
      if e.eeOrigin = SO_EE_ORIGIN_LOCAL then
        some (localError rts errno e
          (.pingError 0 ("local error: message too long, mtu=" ++ toString e.eeInfo)))
      else if e.eeOrigin = SO_EE_ORIGIN_ICMP then
        if m.res < 8 ∨ m.target ≠ rts.whereto ∨ m.type ≠ ICMP_ECHO ∨ ¬isOurs rts sock m.id then
          -- Not our error, not an error at all. Clear.
          some { rts := rts, errno := 0, result := 0 }
        else if sock = .raw ∧ m.filterRefused then none
        else
          some
            { rts := countError (acknowledge rts m.sequence)
              errno := errno
              result := 1
              output := netErrorOutput rts m e }
      else some { rts := rts, errno := errno, result := 0 }

/-- The IPv6 function sets no filter and acknowledges nothing. -/
def ping6ReceiveErrorMsg (rts : PingRts) (sock : SockType) (errno : Int) :
    ErrorQueue → Option ErrorResult
  | .failed queueErrno => some (queueFailed rts errno queueErrno)
  | .message m =>
    match m.ee with
    | none => none
    | some e =>
      if e.eeOrigin = SO_EE_ORIGIN_LOCAL then
        some (localError rts errno e
          (.error 0 ("local error: message too long, mtu: " ++ toString e.eeInfo)))
      else if e.eeOrigin = SO_EE_ORIGIN_ICMP6 then
        if m.res < 8 ∨ m.target6 ≠ rts.whereto6 ∨ m.type ≠ ICMP6_ECHO_REQUEST ∨
            ¬isOurs rts sock m.id then
          -- Not our error, not an error at all. Clear.
          some { rts := rts, errno := 0, result := 0 }
        else
          some
            { rts := countError rts
              errno := errno
              result := 1
              output := netErrorOutput rts m e }
      else some { rts := rts, errno := errno, result := 0 }

/-- `receive_error_msg` of the family's `ping_func_set_st`. -/
def Family.receiveErrorMsg (family : Family) (rts : PingRts) (sock : SockType) (errno : Int)
    (queue : ErrorQueue) : Option ErrorResult :=
  match family with
  | .inet => ping4ReceiveErrorMsg rts sock errno queue
  | .inet6 => ping6ReceiveErrorMsg rts sock errno queue

/-! ## What a message changes -/

/-- What a receive function makes of the error queue. -/
inductive ReceivedError (rts : PingRts) (errno : Int) : ErrorQueue → ErrorResult → Prop where
  | failed (queueErrno : Int) :
      ReceivedError rts errno (.failed queueErrno) (queueFailed rts errno queueErrno)
  /-- An error of the own host. -/
  | own {m : QueuedError} {e : SockExtendedErr} (carried : m.ee = some e)
      (origin : e.eeOrigin = SO_EE_ORIGIN_LOCAL) (tooLong : Output) :
      ReceivedError rts errno (.message m) (localError rts errno e tooLong)
  /-- Nothing about a probe. -/
  | other {m : QueuedError} (kept : Int) :
      ReceivedError rts errno (.message m) { rts := rts, errno := kept, result := 0 }
  /-- An error from the network. -/
  | network {m : QueuedError} {e : SockExtendedErr} {told : PingRts} (carried : m.ee = some e)
      (acknowledged : told = rts ∨ told = acknowledge rts m.sequence) :
      ReceivedError rts errno (.message m)
        { rts := countError told
          errno := errno
          result := 1
          output := netErrorOutput rts m e }

theorem Family.receivedError {family : Family} {rts : PingRts} {sock : SockType} {errno : Int}
    {queue : ErrorQueue} {r : ErrorResult}
    (h : family.receiveErrorMsg rts sock errno queue = some r) :
    ReceivedError rts errno queue r := by
  cases family <;> cases queue with
  | failed queueErrno =>
      cases h
      exact .failed queueErrno
  | message m =>
      simp only [Family.receiveErrorMsg, ping4ReceiveErrorMsg, ping6ReceiveErrorMsg] at h
      split at h
      · cases h
      next e hee =>
        split at h
        next horigin =>
          cases h
          exact .own hee horigin _
        split at h
        · split at h
          · cases h
            exact .other 0
          · first
            | (cases h
               exact .network hee (.inl rfl))
            | (split at h
               · cases h
               · cases h
                 exact .network hee (.inr rfl))
        · cases h
          exact .other errno

/-- Errors are counted and probes acknowledged; no other field is touched. -/
theorem Family.receiveErrorMsg_field {α : Type} {family : Family} {rts : PingRts}
    {sock : SockType} {errno : Int} {queue : ErrorQueue} {r : ErrorResult} (field : PingRts → α)
    (acknowledged : ∀ rts seq, field (acknowledge rts seq) = field rts)
    (counted : ∀ rts, field (countError rts) = field rts)
    (h : family.receiveErrorMsg rts sock errno queue = some r) : field r.rts = field rts := by
  cases Family.receivedError h with
  | failed queueErrno => rfl
  | own carried origin tooLong =>
      rw [localError]
      split
      · rfl
      · exact counted rts
  | other kept => rfl
  | network carried hacknowledged =>
      obtain rfl | rfl := hacknowledged
      · exact counted _
      · exact (counted _).trans (acknowledged rts _)

end Coping
