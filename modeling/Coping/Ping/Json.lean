import Coping.Library.CBuffer
import Coping.Library.Json

/-!
# The JSON buffer

The functions of `ping_json.c`. A function there is a straight line of calls of
`snprintf`, each of them followed by `json_bufsize`; it is the list of its appends here.

`snprintf` is told that there is room for `PING_JSON_MAX - size`, an unsigned difference.
-/

namespace Coping

open CFormat
open Json (quote comma colon space openBrace closeBrace openBracket closeBracket)

def PING_JSON_MAX : Nat := 4000

/-- What ends the program. -/
inductive JsonStop where
  /-- "Overflow during JSON construction". -/
  | overflow
  /-- "Unable to process errnum for JSON construction". -/
  | errnum
  /-- Something is written outside of the array. -/
  | outside
  deriving DecidableEq

structure PingJsonBuffer where
  size : Nat := 0
  object : CBuffer PING_JSON_MAX := CBuffer.zero

/-- Where `snprintf` writes, and what. -/
inductive Append where
  | atStart (text : List UInt8)
  | atEnd (text : List UInt8)

def Append.text : Append → List UInt8
  | .atStart text => text
  | .atEnd text => text

def PingJsonBuffer.offset (b : PingJsonBuffer) : Append → Nat
  | .atStart _ => 0
  | .atEnd _ => b.size

/-- `PING_JSON_MAX - json_packet->size`, in `size_t`. -/
def PingJsonBuffer.room (b : PingJsonBuffer) : Nat :=
  (((PING_JSON_MAX : Int) - b.size) % 2 ^ 64).toNat

def jsonBufsize (b : PingJsonBuffer) (size : Nat) : Except JsonStop PingJsonBuffer :=
  if size ≥ PING_JSON_MAX then .error .overflow
  else .ok { b with size := b.size + size }

def PingJsonBuffer.append (b : PingJsonBuffer) (a : Append) : Except JsonStop PingJsonBuffer :=
  match b.object.snprintf (b.offset a) b.room a.text with
  | none => .error .outside
  | some object => jsonBufsize { b with object := object } a.text.length

theorem PingJsonBuffer.append_eq {object : CBuffer PING_JSON_MAX} (b : PingJsonBuffer) (a : Append)
    (h : b.object.snprintf (b.offset a) b.room a.text = some object) :
    b.append a = jsonBufsize { b with object := object } a.text.length := by
  rw [PingJsonBuffer.append, h]

def PingJsonBuffer.appendAll (b : PingJsonBuffer) (appends : List Append) :
    Except JsonStop PingJsonBuffer :=
  appends.foldlM PingJsonBuffer.append b

/-! ## Pieces -/

/-- The keys that the program passes. -/
inductive JsonKey where
  | version | error | info
  | bytes | host | ident | seq | ttl | time
  | transmitted | received | duplicates | corrupted | errors | loss
  | rtt | min | avg | max | mdev
  | pipe | ipg | ewma
  deriving DecidableEq

def JsonKey.text : JsonKey → List UInt8
  | .version => ascii "version"
  | .error => ascii "error"
  | .info => ascii "info"
  | .bytes => ascii "bytes"
  | .host => ascii "host"
  | .ident => ascii "ident"
  | .seq => ascii "seq"
  | .ttl => ascii "ttl"
  | .time => ascii "time"
  | .transmitted => ascii "transmitted"
  | .received => ascii "received"
  | .duplicates => ascii "duplicates"
  | .corrupted => ascii "corrupted"
  | .errors => ascii "errors"
  | .loss => ascii "loss"
  | .rtt => ascii "rtt"
  | .min => ascii "min"
  | .avg => ascii "avg"
  | .max => ascii "max"
  | .mdev => ascii "mdev"
  | .pipe => ascii "pipe"
  | .ipg => ascii "ipg"
  | .ewma => ascii "ewma"

def quoted (val : List UInt8) : List UInt8 := quote :: (val ++ [quote])

/-- A key, and how its value begins. -/
def keyed (key : JsonKey) (value : List UInt8) : List UInt8 :=
  quote :: (key.text ++ quote :: colon :: space :: value)

def jsonEndArray : List Append := [.atEnd [closeBracket]]

def jsonStartObject : List Append := [.atStart [openBrace]]

def jsonEndObject : List Append := [.atEnd [closeBrace]]

def jsonContinue : List Append := [.atEnd [comma, space]]

def jsonKvStr (key : JsonKey) (val : List UInt8) : List Append :=
  [.atEnd (keyed key (quoted val))]

def jsonKvStrContinue (key : JsonKey) (val : List UInt8) : List Append :=
  jsonKvStr key val ++ jsonContinue

def jsonKvInt (key : JsonKey) (val : Int32) : List Append :=
  [.atEnd (keyed key (decimal val.toInt))]

def jsonKvUint (key : JsonKey) (val : UInt32) : List Append :=
  [.atEnd (keyed key (decimal val.toNat))]

def jsonKvIntContinue (key : JsonKey) (val : Int32) : List Append :=
  jsonKvInt key val ++ jsonContinue

/-- The loop over the strings of an array. -/
def jsonItems : Nat → List CString → List Append
  | _, [] => []
  | count, val :: vals =>
      (if count > 0 then jsonContinue else []) ++ [.atEnd (quoted val.bytes)] ++
        jsonItems (count + 1) vals

def jsonKvArray (key : JsonKey) (vals : List CString) : List Append :=
  [.atEnd (keyed key [openBracket])] ++ jsonItems 0 vals ++ jsonEndArray

/-! ## The object of a packet -/

/-- The arguments of `construct_json`. -/
inductive JsonField where
  | str (key : JsonKey) (val : CString)
  | int (key : JsonKey) (val : Int32)
  | uint (key : JsonKey) (val : UInt32)
  /-- `va_arg` goes on to a null pointer. What it finds in front of one, behind the strings
  that are passed, is `behind`: there is nothing when a null pointer is passed last. -/
  | arr (key : JsonKey) (vals behind : List CString)

def JsonField.key : JsonField → JsonKey
  | .str key _ => key
  | .int key _ => key
  | .uint key _ => key
  | .arr key _ _ => key

/-- Is there anything in the buffer? -/
def PingJsonBuffer.started (b : PingJsonBuffer) : Bool := b.object.bytes[0]? ≠ some 0

def JsonField.appends : JsonField → List Append
  | .str key val => jsonKvStr key val.bytes
  | .int key val => jsonKvInt key val
  | .uint key val => jsonKvUint key val
  | .arr key vals behind => jsonKvArray key (vals ++ behind)

/-- How a member is set apart from what is in the buffer. -/
def PingJsonBuffer.opening (b : PingJsonBuffer) : List Append :=
  if b.started then jsonContinue else jsonStartObject

/-- What `construct_json` appends. -/
def constructJsonAppends (b : PingJsonBuffer) (field : JsonField) : List Append :=
  b.opening ++ field.appends

def constructJson (optJson : Bool) (b : PingJsonBuffer) (field : JsonField) :
    Except JsonStop PingJsonBuffer :=
  if optJson then b.appendAll (constructJsonAppends b field) else .ok b

/-- What is printed, and the buffer behind it. -/
def printJsonAndReset (b : PingJsonBuffer) : List UInt8 × PingJsonBuffer :=
  (b.object.text ++ [closeBrace, 0x0a], { size := 0, object := b.object.clear })

def printJsonPacket (optJson : Bool) (b : PingJsonBuffer) : List UInt8 × PingJsonBuffer :=
  if optJson ∧ b.started then printJsonAndReset b else ([], b)

/-- `construct_json_error`. No null pointer is passed behind the two strings. -/
def constructJsonError (optJson : Bool) (strerror : Int → CString) (behind : List CString)
    (b : PingJsonBuffer) (errnum : Int) (errmsg : Option CString) :
    Except JsonStop (List UInt8 × PingJsonBuffer) :=
  if errnum < 0 then .error .errnum
  else do
    let b ← constructJson optJson b (match errmsg with
      | none => .str .error (strerror errnum)
      | some errmsg =>
          if errnum = 0 then .str .error errmsg
          else .arr .error [errmsg, strerror errnum] behind)
    return printJsonPacket optJson b

/-! ## The object of the statistics -/

/-- What `sprintf` leaves in a `char [30]`. -/
structure TimeText extends CString where
  fits : bytes.length < 30

/-- The four times of `rtt`, as `ping_print_statistics` prints them. -/
structure RttTexts where
  rttmin : TimeText
  rttavg : TimeText
  rttmax : TimeText
  rttmdev : TimeText

/-- The numbers of the statistics, converted to `int`. -/
structure JsonStatistics where
  hostname : CString
  transmitted : Int32
  received : Int32
  duplicates : Int32
  corrupted : Int32
  errors : Int32
  loss : Int32
  time : Int32
  pipesize : Int32

/-- The members in front of `rtt`. -/
def statisticsMembers (s : JsonStatistics) : List Append :=
  jsonKvStrContinue .host s.hostname.bytes ++
    jsonKvIntContinue .transmitted s.transmitted ++
    jsonKvIntContinue .received s.received ++
    jsonKvIntContinue .duplicates s.duplicates ++
    jsonKvIntContinue .corrupted s.corrupted ++
    jsonKvIntContinue .errors s.errors ++
    jsonKvIntContinue .loss s.loss ++
    jsonKvIntContinue .time s.time

/-- The appends to `json_rtt`, up to the one of `json_kv_object`. -/
def rttAppends (rtt : RttTexts) : List Append :=
  jsonStartObject ++
    jsonKvStrContinue .min rtt.rttmin.bytes ++
    jsonKvStrContinue .avg rtt.rttavg.bytes ++
    jsonKvStrContinue .max rtt.rttmax.bytes ++
    jsonKvStr .mdev rtt.rttmdev.bytes ++
    jsonEndObject

def jsonKvObject (key : JsonKey) (val : PingJsonBuffer) : List Append :=
  [.atEnd (keyed key val.object.text)]

def pipeAppends (pipesize : Int32) : List Append :=
  if pipesize.toInt > 1 then jsonContinue ++ jsonKvIntContinue .pipe pipesize else []

/-- `construct_json_statistics`. The array of `json_rtt` is not initialised; it is what was
on the stack. -/
def constructJsonStatistics (optJson : Bool) (stack : CBuffer PING_JSON_MAX)
    (b : PingJsonBuffer) (s : JsonStatistics) (rtt : RttTexts) :
    Except JsonStop PingJsonBuffer :=
  if optJson then do
    let b ← b.appendAll (b.opening ++ statisticsMembers s)
    let json_rtt ← PingJsonBuffer.appendAll { size := 0, object := stack } (rttAppends rtt)
    b.appendAll (jsonKvObject .rtt json_rtt ++ pipeAppends s.pipesize)
  else .ok b

def floodAppends (leading : Bool) (ipg ewma : TimeText) : List Append :=
  (if leading then jsonContinue else []) ++ jsonKvStrContinue .ipg ipg.bytes ++
    jsonKvStr .ewma ewma.bytes

/-- `construct_json_statistics_flood`. -/
def constructJsonStatisticsFlood (optJson : Bool) (b : PingJsonBuffer) (leading : Bool)
    (ipg ewma : TimeText) : Except JsonStop PingJsonBuffer :=
  if optJson ∧ b.started then b.appendAll (floodAppends leading ipg ewma) else .ok b

/-- `print_json_statistics`, the same as for a packet. -/
def printJsonStatistics (optJson : Bool) (b : PingJsonBuffer) : List UInt8 × PingJsonBuffer :=
  if optJson ∧ b.started then printJsonAndReset b else ([], b)

end Coping
