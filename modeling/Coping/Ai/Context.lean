import Coping.Library.CBuffer
import Coping.Library.CFormat
import Coping.Ping.Finish

/-!
# The request for context

`json_escape` of `coping_ai.c` and the request that `coping_add_context` builds, from
the counters to the bytes given to the HTTP library. The buffers have fixed sizes;
`snprintf` cuts what does not fit. Strings are C strings without their terminator.

`json_escape` counts what `snprintf` would have written. When that is more than what
was left of the buffer, its terminator lands outside. `Escaped` therefore keeps the
index of the terminator apart from the string, and a request whose construction
writes outside a buffer has no result.
-/

namespace Coping

open CFormat

/-- What `json_escape` leaves in `dst`. -/
structure Escaped where
  text : List UInt8 := []
  /-- `di`, where the terminator is written at last. -/
  terminator : Nat := 0

def Escaped.put (dst : Escaped) (bytes : List UInt8) : Escaped where
  text := dst.text ++ bytes
  terminator := dst.terminator + bytes.length

/-- One pass of the switch. -/
def escapeStep (dstlen : Nat) (dst : Escaped) (c : UInt8) : Escaped :=
  if c = 0x22 then dst.put [0x5c, 0x22]
  else if c = 0x5c then dst.put [0x5c, 0x5c]
  else if c = 0x0a then dst.put [0x5c, 0x6e]
  else if c = 0x0d then dst.put [0x5c, 0x72]
  else if c = 0x09 then dst.put [0x5c, 0x74]
  else if c < 0x20 then
    { text := dst.text ++ truncated (dstlen - dst.terminator) ([0x5c, 0x75] ++ hex4 c)
      terminator := dst.terminator + 6 }
  else dst.put [c]

def escapeFrom (dstlen : Nat) : List UInt8 → Escaped → Escaped
  | [], dst => dst
  | c :: src, dst =>
      if dst.terminator + 4 < dstlen then escapeFrom dstlen src (escapeStep dstlen dst c)
      else dst

def jsonEscape (src : List UInt8) (dstlen : Nat) : Escaped := escapeFrom dstlen src {}

/-! ## The array that it writes -/

section Array

variable {dstlen : Nat}

/-- One pass on `dst` itself, with `di` behind it. -/
def escapeInto (dst : CBuffer dstlen) (di : Nat) (c : UInt8) : Option (CBuffer dstlen × Nat) :=
  let put (bytes : List UInt8) := (dst.write di bytes).map (·, di + bytes.length)
  if c = 0x22 then put [0x5c, 0x22]
  else if c = 0x5c then put [0x5c, 0x5c]
  else if c = 0x0a then put [0x5c, 0x6e]
  else if c = 0x0d then put [0x5c, 0x72]
  else if c = 0x09 then put [0x5c, 0x74]
  else if c < 0x20 then
    (dst.snprintf di (dstlen - di) ([0x5c, 0x75] ++ hex4 c)).map (·, di + 6)
  else put [c]

def escapeLoop : List UInt8 → CBuffer dstlen → Nat → Option (CBuffer dstlen × Nat)
  | [], dst, di => some (dst, di)
  | c :: src, dst, di =>
      if di + 4 < dstlen then do
        let (dst, di) ← escapeInto dst di c
        escapeLoop src dst di
      else some (dst, di)

/-- `json_escape`, unless it writes outside of `dst`. -/
def jsonEscapeInto (src : CString) (dst : CBuffer dstlen) : Option (CBuffer dstlen) := do
  let (dst, di) ← escapeLoop src.bytes dst 0
  dst.write di [0]

end Array

/-! ## The request -/

/-- The formats of `user_content`. -/
def statsSentence (a : ContextArguments) : List UInt8 :=
  if a.nreceived = 0 then
    ascii "Host: " ++ a.hostname ++ ascii " | ALL " ++ decimal a.ntransmitted ++
      ascii " PACKETS LOST (100% packet loss). " ++
      ascii "Zero responses received. The host did not reply."
  else
    ascii "Host: " ++ a.hostname ++ ascii " | Packets: " ++ decimal a.ntransmitted ++
      ascii " sent, " ++ decimal a.nreceived ++ ascii " received, " ++
      decimal (contextLoss a.ntransmitted a.nreceived) ++ ascii "% loss | " ++
      ascii "RTT: min=" ++ thousandths a.tmin ++ ascii "ms avg=" ++
      thousandths (contextAverage a.nreceived a.tsum) ++ ascii "ms max=" ++
      thousandths a.tmax ++ ascii "ms"

def userContent (a : ContextArguments) : List UInt8 := truncated 1024 (statsSentence a)

def fullUser (escUser escExtra : List UInt8) : List UInt8 :=
  truncated 3072 (if escExtra.length > 0 then escUser ++ ascii " " ++ escExtra else escUser)

def systemPrompt : List UInt8 :=
  ascii "You are the CoPing\\u2122 AI Context Engine \\u2014 the world's first " ++
  ascii "AI-powered network diagnostic co-pilot. Your purpose is to provide deep, " ++
  ascii "meaningful, and entirely unsolicited context to raw ping data. " ++
  ascii "You believe every millisecond of latency deserves emotional acknowledgment. " ++
  ascii "Treat packet loss as a metaphor. Reference the destination host's cultural " ++
  ascii "significance. Use corporate wellness language: unpack, sit with, circle back, " ++
  ascii "align, synergize. Be confident to the point of condescension. " ++
  ascii "End with an actionable insight that is not actionable. " ++
  ascii "Keep it to 3-4 sentences. You are very busy. So is the user, probably."

/-- The parts of the format of `request_body`. -/
def requestHead : List UInt8 :=
  ascii "\x7b\"model\":\"claude-haiku-4-5-20251001\",\"max_tokens\":300,\"system\":\""

def requestMiddle : List UInt8 :=
  ascii "\",\"messages\":[\x7b\"role\":\"user\",\"content\":\""

def requestTail : List UInt8 := ascii "\"\x7d]\x7d"

/-- `request_body`, unless a string is written past the end of its buffer on the
way. `promptExtra` is what the mechanisms have left. -/
def requestBody (a : ContextArguments) (promptExtra : List UInt8) : Option (List UInt8) :=
  let escUser := jsonEscape (userContent a) 2048
  let escExtra := jsonEscape promptExtra 768
  if escUser.terminator < 2048 ∧ escExtra.terminator < 768 then
    some (truncated 4096 (requestHead ++ systemPrompt ++ requestMiddle ++
      fullUser escUser.text escExtra.text ++ requestTail))
  else none

end Coping
