import Coping.Ping.Json

/-!
# The arguments of an error object

`construct_json_error` with the variable arguments that it passes on. `va_arg` yields the
arguments of the call one after another, and behind the last of them what happens to be in the
registers and on the stack. `json_kv_array` asks for another one until it gets a null pointer.
-/

namespace Coping

open Json (openBracket)

/-- A value of type `char *`. -/
inductive Pointer where
  | null
  | string (s : CString)
  /-- Nothing is known of what is read there. -/
  | wild

/-- The variable arguments of a call, and what is behind them. -/
structure VaList where
  passed : List Pointer
  leftover : Nat → Pointer

/-- `va_arg`, from zero. -/
def VaList.arg (ap : VaList) (i : Nat) : Pointer :=
  (ap.passed[i]?).getD (ap.leftover (i - ap.passed.length))

inductive ArrayStop where
  /-- A string is read where there is none. -/
  | wild
  | json (stop : JsonStop)

/-- How often `va_arg` was called, and the buffer. -/
structure ArrayEnd where
  consumed : Nat
  buffer : PingJsonBuffer

/-- The loop of `json_kv_array` from an argument on. Without fuel it has not ended. -/
def jsonKvArrayLoop (ap : VaList) : Nat → Nat → PingJsonBuffer → Except ArrayStop (Option ArrayEnd)
  | 0, _, _ => .ok none
  | fuel + 1, count, b =>
    match ap.arg count with
    | .null => .ok (some { consumed := count + 1, buffer := b })
    | .wild => .error .wild
    | .string val => do
        let b ← (b.appendAll ((if count > 0 then jsonContinue else []) ++
          [.atEnd (quoted val.bytes)])).mapError .json
        jsonKvArrayLoop ap fuel (count + 1) b

/-- An object that is printed, and the buffer behind it. -/
structure ErrorObject where
  consumed : Nat
  printed : List UInt8
  buffer : PingJsonBuffer

/-- What `construct_json_error` passes. -/
def errorArguments (strerror : Int → CString) (leftover : Nat → Pointer) (errnum : Int)
    (errmsg : CString) : VaList where
  passed := [.string errmsg, .string (strerror errnum)]
  leftover := leftover

/-- The array of an error object, printed. -/
def constructJsonErrorArray (strerror : Int → CString) (leftover : Nat → Pointer) (fuel : Nat)
    (b : PingJsonBuffer) (errnum : Int) (errmsg : CString) :
    Except ArrayStop (Option ErrorObject) := do
  let b ← (b.appendAll (b.opening ++ [.atEnd (keyed .error [openBracket])])).mapError .json
  let array ← jsonKvArrayLoop (errorArguments strerror leftover errnum errmsg) fuel 0 b
  let some array := array | return none
  let b ← (array.buffer.appendAll jsonEndArray).mapError .json
  let printed := printJsonPacket true b
  return some { consumed := array.consumed, printed := printed.1, buffer := printed.2 }

/-- `construct_json_error` of a message, with `-j`. -/
def constructJsonErrorArgs (strerror : Int → CString) (leftover : Nat → Pointer) (fuel : Nat)
    (b : PingJsonBuffer) (errnum : Int) (errmsg : CString) :
    Except ArrayStop (Option ErrorObject) :=
  if errnum < 0 then .error (.json .errnum)
  else if errnum = 0 then do
    let b ← (constructJson true b (.str .error errmsg)).mapError .json
    let printed := printJsonPacket true b
    return some { consumed := 1, printed := printed.1, buffer := printed.2 }
  else constructJsonErrorArray strerror leftover fuel b errnum errmsg

end Coping
