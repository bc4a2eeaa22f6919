import Coping.Library.CBuffer
import Coping.Library.CFormat

/-!
# The scan of the arguments

The block of `main` in `ping.c` that takes the options of its own out of `argv` before `getopt`
sees it. `argv` is the array with the null pointer at its end. An access outside of it has no
result, and the accesses are recorded in their order.
-/

namespace Coping

open CFormat

def COPING_MAX_MECHS : Nat := 8

def COPING_MECH_NAMELEN : Nat := 64

/-- `coping_config_t`. It is static, and zero at the start. -/
structure CopingConfig where
  noContext : Bool := false
  mechanismCount : Nat := 0
  mechanismNames : Fin COPING_MAX_MECHS → CBuffer COPING_MECH_NAMELEN := fun _ => CBuffer.zero

def noContextFlag : List UInt8 := ascii "--no-context"

def mechanismFlag : List UInt8 := ascii "--mechanism"

def mechanismPrefix : List UInt8 := ascii "--mechanism="

inductive ArgvAccess where
  | read (i : Nat)
  | write (i : Nat)

structure PreScan where
  argv : List (Option CString)
  newArgc : Nat := 1
  config : CopingConfig
  accesses : List ArgvAccess := []

/-- A name goes into the next slot, as long as there is one. -/
def CopingConfig.addMechanism (config : CopingConfig) (name : List UInt8) :
    Option CopingConfig :=
  if h : config.mechanismCount < COPING_MAX_MECHS then do
    let copied ← (config.mechanismNames ⟨config.mechanismCount, h⟩).strncpy name
      (COPING_MECH_NAMELEN - 1)
    return { config with
      mechanismCount := config.mechanismCount + 1
      mechanismNames :=
        Function.update config.mechanismNames ⟨config.mechanismCount, h⟩ copied }
  else some config

namespace PreScan

/-- The string that `argv[i]` points to. -/
def argument (s : PreScan) (i : Nat) : Option CString := (s.argv[i]?).join

def record (s : PreScan) (access : ArgvAccess) : PreScan :=
  { s with accesses := s.accesses ++ [access] }

def store (s : PreScan) (i : Nat) (value : Option CString) : Option PreScan :=
  if i < s.argv.length then some { s.record (.write i) with argv := s.argv.set i value } else none

end PreScan

def preScanLoop (argc i : Nat) (s : PreScan) : Option PreScan :=
  if i < argc then do
    let arg ← s.argument i
    let s := s.record (.read i)
    if arg.bytes = noContextFlag then
      preScanLoop argc (i + 1) { s with config := { s.config with noContext := true } }
    else if mechanismPrefix <+: arg.bytes then
      let config ← s.config.addMechanism (arg.bytes.drop mechanismPrefix.length)
      preScanLoop argc (i + 1) { s with config := config }
    else if arg.bytes = mechanismFlag ∧ i + 1 < argc then
      if s.config.mechanismCount < COPING_MAX_MECHS then
        let name ← s.argument (i + 1)
        let s := s.record (.read (i + 1))
        let config ← s.config.addMechanism name.bytes
        preScanLoop argc (i + 2) { s with config := config }
      else preScanLoop argc (i + 2) s
    else
      let s ← s.store s.newArgc (some arg)
      preScanLoop argc (i + 1) { s with newArgc := s.newArgc + 1 }
  else some s
termination_by argc - i

/-- The block; `newArgc` is the new `argc`. -/
def preScan (argc : Nat) (argv : List (Option CString)) (config : CopingConfig) :
    Option PreScan := do
  let s ← preScanLoop argc 1 { argv := argv, config := config }
  s.store s.newArgc none

end Coping
