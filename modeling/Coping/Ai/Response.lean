import Coping.Library.CBuffer
import Coping.Library.CFormat
import Coping.Library.Json

/-!
# The text of a response

`extract_text_from_response` of `coping_ai.c`, twice. `extractTextFromResponse` is what it
computes: the response is a C string without its terminator, and so is the result; `malloc`
has succeeded. `extractText` is how it does it: `p` is an index of the response, and every
byte is read and stored in its place.
-/

namespace Coping

open CFormat
open Json (quote backslash)

/-- `cap`, the size of `result`. -/
def RESPONSE_CAP : Nat := 2048

def typeMarker : List UInt8 := ascii "\"type\":\"text\""

def textMarker : List UInt8 := ascii "\"text\":\""

/-- The switch over the byte behind a backslash. -/
def unescape (c : UInt8) : UInt8 :=
  if c = quote then quote
  else if c = backslash then backslash
  else if c = 0x6e then 0x0a
  else if c = 0x72 then 0x0d
  else if c = 0x74 then 0x09
  else c

/-- The loop, from `p` and `ri` on: the bytes that it still stores. -/
def decodeText : List UInt8 → Nat → List UInt8
  | [], _ => []
  | [c], ri => if ri + 4 < RESPONSE_CAP ∧ c ≠ quote then [c] else []
  | c :: d :: rest, ri =>
      if ri + 4 < RESPONSE_CAP then
        if c = backslash then unescape d :: decodeText rest (ri + 1)
        else if c = quote then []
        else c :: decodeText (d :: rest) (ri + 1)
      else []

def extractTextFromResponse (json : List UInt8) : Option (List UInt8) := do
  let typeMarkerAt ← strstr typeMarker json
  let textMarkerAt ← strstr textMarker typeMarkerAt
  return decodeText (textMarkerAt.drop textMarker.length) 0

/-- What the loop leaves behind. -/
structure TextScan where
  p : Nat
  ri : Nat
  result : CBuffer RESPONSE_CAP

/-- `*p == '\\' && *(p + 1)`, where `c` is the byte at `p`. -/
def escapes (json : CString) (p : Nat) (c : UInt8) : Option Bool :=
  if c = backslash then (json.byte (p + 1)).map (· ≠ 0) else some false

/-- The loop. It has no result where it reads behind the terminator or writes outside
`result`. -/
def scanText (json : CString) (p ri : Nat) (result : CBuffer RESPONSE_CAP) : Option TextScan := do
  let c ← json.byte p
  if h : c ≠ 0 ∧ ri + 4 < RESPONSE_CAP then
    if ← escapes json p c then
      let d ← json.byte (p + 1)
      let result ← result.write ri [unescape d]
      scanText json (p + 2) (ri + 1) result
    else if c = quote then
      return ⟨p, ri, result⟩
    else
      let result ← result.write ri [c]
      scanText json (p + 1) (ri + 1) result
  else
    return ⟨p, ri, result⟩
termination_by RESPONSE_CAP - ri

/-- The index `start`. -/
def textStart (json : CString) : Option Nat := do
  let typeMarkerAt ← strstr typeMarker json.bytes
  let textMarkerAt ← strstr textMarker typeMarkerAt
  return json.bytes.length - textMarkerAt.length + textMarker.length

/-- The function with what `malloc` returns, and no result where the loop has none. -/
def extractText (json : CString) (malloc : Option (CBuffer RESPONSE_CAP)) :
    Option (Option TextScan) :=
  match textStart json with
  | none => some none
  | some start =>
    match malloc with
    | none => some none
    | some result => do
      let scan ← scanText json start 0 result
      let result ← scan.result.write scan.ri [0]
      return some { scan with result := result }

end Coping
