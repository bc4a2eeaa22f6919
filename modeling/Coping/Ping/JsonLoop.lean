import Coping.Ping.MainLoop

/-!
# The main loop with its JSON buffers

What goes through the buffers of `ping_json.c` under `-j`, from the first check of the exit
conditions to the return of `finish`. A program that is stopped there has no result. What is
printed past the buffers is left out.
-/

namespace Coping

open CFormat

structure JsonContext extends MainContext where
  strerror : Int → CString
  startTime : Timespec := {}

/-- An event, and what the printing meets. -/
structure JsonEvent where
  event : MainEvent
  /-- The errno with which the socket filter is refused, or zero. -/
  filterErrno : Int := 0
  /-- The strings in front of a null pointer that `va_arg` finds behind the arguments of an
  error, if it does not find a pointer to something else before. -/
  behind : Option (List CString) := some []
  /-- The array of `json_rtt` as it is on the stack. -/
  stack : CBuffer PING_JSON_MAX := CBuffer.zero

structure JsonState where
  main : MainState
  jsonPacket : PingJsonBuffer := {}
  jsonStats : PingJsonBuffer := {}

/-- A call of `ping_error` that does not end the program. -/
structure ErrorCall where
  errnum : Int
  text : List UInt8

def Output.errorCall : Output → Option ErrorCall
  | .pingError errnum text => some ⟨errnum, ascii text⟩
  | _ => none

section Step

variable (ctx : JsonContext) (settings : Settings)

/-- `install_filter`, which goes past the buffer with IPv6. -/
def installFilterErrors (e : JsonEvent) (once notOurs : Bool) : List ErrorCall :=
  if ctx.family = .inet ∧ ctx.sock = .raw ∧ notOurs ∧ ¬once ∧ e.filterErrno ≠ 0 then
    [⟨e.filterErrno, ascii "WARNING: failed to install socket filter"⟩]
  else []

/-- `recvmsg` has failed. -/
def failedErrors (e : JsonEvent) (s : MainState) (recvError : Bool) (errno : Int)
    (queue : ErrorQueue) : List ErrorCall :=
  if (errno = EAGAIN ∧ recvError = false) ∨ errno = EINTR then []
  else
    match ctx.family.receiveErrorMsg s.rts ctx.sock errno queue with
    | none => []
    | some r =>
        r.output.filterMap Output.errorCall ++
          if r.result = 0 ∧ r.errno ≠ 0 then [⟨r.errno, ascii "recvmsg"⟩]
          else installFilterErrors ctx e s.once (r.result = 0)

/-- `parse_reply`, where it is called. -/
def mainParsed (s : MainState) (p : Packet) : Parsed :=
  ctx.family.parseReply ctx.prAddr settings ctx.sock s.rts s.oldRr p

/-- The calls of `ping_error` at an event, but for the ones of `parse_reply`. -/
def errorCalls (s : MainState) (e : JsonEvent) : List ErrorCall :=
  match e.event, s.stage with
  | .send c, _ =>
      match pinger ctx.family ctx.sock s.loop.ping c with
      | none => []
      | some r => r.output.filterMap Output.errorCall
  | .packet p, _ => installFilterErrors ctx e s.once (mainParsed ctx settings s p).notOurs
  | .failed errno queue, .receiving recvError => failedErrors ctx e s recvError errno queue
  | _, _ => []

/-- `ping_error`. Without a number there is no array, and nothing behind the arguments is read. -/
def jsonPingError (e : JsonEvent) (b : PingJsonBuffer) (call : ErrorCall) :
    Option PingJsonBuffer :=
  (if call.errnum = 0 then some [] else e.behind).bind fun behind =>
    ((pingError call.errnum call.text behind).print ctx.strerror ([], b)).toOption.map Prod.snd

/-- The packet, and `print_json_packet` behind it. -/
def jsonParsed (s : MainState) (b : PingJsonBuffer) : MainEvent → Option PingJsonBuffer
  | .packet p =>
      (printPacket ctx.strerror (mainParsed ctx settings s p).printed b).toOption.map Prod.snd
  | _ => some b

def jsonFinish (e : JsonEvent) (s : JsonState) : Option PingJsonBuffer :=
  match e.event with
  | .finish =>
      (pingPrintFinish e.stack ctx.startTime s.main.rts s.jsonStats).toOption.map Prod.snd
  | _ => some s.jsonStats

/-- What is printed at an event. -/
def jsonPrinted (e : JsonEvent) (s : JsonState) : Option (PingJsonBuffer × PingJsonBuffer) := do
  let b ← jsonParsed ctx settings s.main s.jsonPacket e.event
  let b ← (errorCalls ctx settings s.main e).foldlM (jsonPingError ctx e) b
  let stats ← jsonFinish ctx e s
  return (b, stats)

/-- The program, with the buffers where there is `-j`. -/
def jsonMachine : Machine JsonState JsonEvent where
  step s e := do
    let main ← (mainMachine ctx.toMainContext settings).step s.main e.event
    if settings.optJson then
      let printed ← jsonPrinted ctx settings e s
      return { main := main, jsonPacket := printed.1, jsonStats := printed.2 }
    else return { s with main := main }

end Step

end Coping
