import Coping.Library.CFormat
import Coping.Library.Credentials
import Coping.Ping.Probe

/-!
# Mechanisms and privileges

What `main` does that matters to privileges, in the order in which it does it: the
code of mechanisms that runs, and the calls of `limit_capabilities`,
`modify_capability` and `drop_capabilities` of `ping_common.c`. `mainActions` is the
list for one environment, `perform` is what each action does to the credentials.
`exit` may end the process after any action, so every real life of the process is a
prefix of the list.

Code of a mechanism is taken to leave the credentials alone.
-/

namespace Coping

open CFormat

def CAP_NET_ADMIN : Nat := 12

def CAP_NET_RAW : Nat := 13

/-- Where code of a loaded mechanism can run. -/
inductive Hook where
  /-- `dlopen`, which runs the constructors of the library. -/
  | dlopen
  | onLoad
  | preContext
  | transformPrompt
  | postContext
  deriving DecidableEq

/-- The hooks that a library exports. -/
structure Mechanism where
  onLoad : Bool := false
  preContext : Bool := false
  transformPrompt : Bool := false
  postContext : Bool := false

/-- One call of `ping4_run` or `ping6_run`. -/
structure AddressRun where
  family : Family
  sourceGiven : Bool := false
  device : Bool := false
  strictSource : Bool := false
  /-- `-m` is still in force at the probe socket and in `setup`. -/
  probeMark : Bool := false
  setupMark : Bool := false
  /-- The probe socket reaches nothing and there is another address. -/
  unreachable : Bool := false

structure Environment where
  /-- Built with libcap. -/
  libcap : Bool
  /-- `ANTHROPIC_API_KEY` is set. -/
  apiKey : Bool := true
  noContext : Bool := false
  mechanismNames : List (List UInt8) := []
  home : Option (List UInt8) := none
  /-- The strings that the memory behind `mech_search_dirs` points to, up to the
  first null pointer. -/
  beyond : List (List UInt8) := []
  /-- The library that `dlopen` finds under a path. -/
  dlopen : List UInt8 → Option Mechanism := fun _ => none
  /-- The addresses tried, in order. -/
  runs : List AddressRun := []
  /-- The answer of the API holds a text. -/
  answered : Bool := false

/-- `mech_search_dirs` as the loader reads it. The second slot is never null: without
`HOME` it is an empty string. -/
def searchDirs (env : Environment) : List (List UInt8) :=
  ascii "./mechanisms" ::
    (match env.home with
      | some home => truncated 512 (home ++ ascii "/.coping/mechanisms")
      | none => []) :: env.beyond

/-- The first library that opens. -/
def openMechanism (env : Environment) (name : List UInt8) : Option Mechanism :=
  (searchDirs env).findSome? fun dir =>
    env.dlopen (truncated 600 (dir ++ ascii "/" ++ name ++ ascii ".so"))

inductive Action where
  | execute (hook : Hook)
  | limitCapabilities
  | modifyCapability (cap : Nat) (on : Bool)
  | dropCapabilities
  deriving DecidableEq

/-- A hook of a library, where it is exported. -/
def hookIf (exported : Bool) (hook : Hook) : List Action :=
  if exported then [.execute hook] else []

/-- The actions of `load_mechanisms` and the mechanisms it loads; none when a name is
not found and the program exits. -/
def loadMechanisms (env : Environment) : List (List UInt8) → List Action × Option (List Mechanism)
  | [] => ([], some [])
  | name :: names =>
    match openMechanism env name with
    | none => ([], none)
    | some mech =>
      let rest := loadMechanisms env names
      (.execute .dlopen :: hookIf mech.onLoad .onLoad ++ rest.1, rest.2.map (mech :: ·))

/-- The hooks that `coping_add_context` runs. -/
def contextActions (env : Environment) (mechs : List Mechanism) : List Action :=
  if env.noContext then []
  else
    mechs.flatMap (fun mech => hookIf mech.preContext .preContext) ++
      mechs.flatMap (fun mech => hookIf mech.transformPrompt .transformPrompt) ++
      if env.answered then mechs.flatMap fun mech => hookIf mech.postContext .postContext else []

/-- A capability that is enabled for one call. -/
def enabled (needed : Bool) (cap : Nat) : List Action :=
  if needed then [.modifyCapability cap true, .modifyCapability cap false] else []

/-- The part of a run up to the connection of the probe socket. -/
def probeActions (run : AddressRun) : List Action :=
  match run.family with
  | .inet =>
    if run.sourceGiven then enabled run.device CAP_NET_RAW
    else
      enabled run.device CAP_NET_RAW ++ enabled run.device CAP_NET_RAW ++
        enabled run.probeMark CAP_NET_ADMIN
  | .inet6 =>
    if run.sourceGiven then []
    else enabled run.device CAP_NET_RAW ++ enabled run.probeMark CAP_NET_ADMIN

/-- The rest of a run, up to `main_loop`. -/
def setupActions (run : AddressRun) : List Action :=
  (match run.family with
    | .inet => []
    | .inet6 => enabled (run.device && run.strictSource) CAP_NET_RAW) ++
  enabled run.setupMark CAP_NET_ADMIN ++ [.dropCapabilities]

/-- The loop of `main` over the addresses, with the summary at the end. -/
def runActions (env : Environment) (mechs : List Mechanism) : List AddressRun → List Action
  | [] => []
  | run :: runs =>
    if run.unreachable ∧ ¬run.sourceGiven then probeActions run ++ runActions env mechs runs
    else probeActions run ++ setupActions run ++ contextActions env mechs

/-- The actions of `main`. -/
def mainActions (env : Environment) : List Action :=
  if ¬env.apiKey ∧ ¬env.noContext then []
  else
    -- coping_init
    let loaded := loadMechanisms env env.mechanismNames
    loaded.1 ++
      match loaded.2 with
      | none => []
      | some mechs =>
        .limitCapabilities :: enabled true CAP_NET_RAW ++ runActions env mechs env.runs

/-- The credentials and, without libcap, the variable `euid`. -/
structure Privileges where
  cred : Credentials
  euid : Nat := 0

def limitCapabilities (libcap : Bool) (p : Privileges) : Option Privileges :=
  if libcap then
    (p.cred.capset ({CAP_NET_ADMIN, CAP_NET_RAW} ∩ p.cred.permitted) ∅).bind fun c =>
      ((c.setKeepCaps true).setuid c.ruid).map fun c => { p with cred := c.setKeepCaps false }
  else
    (p.cred.seteuid p.cred.ruid).map fun c => { cred := c, euid := p.cred.euid }

/-- Failures are reported and go no further. -/
def modifyCapability (libcap : Bool) (cap : Nat) (on : Bool) (p : Privileges) : Privileges :=
  if libcap then
    if cap ∈ p.cred.permitted then
      let effective := if on then insert cap p.cred.effective else p.cred.effective.erase cap
      { p with cred := (p.cred.capset p.cred.permitted effective).getD p.cred }
    else p
  else { p with cred := (p.cred.seteuid (if on then p.euid else p.cred.ruid)).getD p.cred }

def dropCapabilities (libcap : Bool) (p : Privileges) : Option Privileges :=
  if libcap then (p.cred.capset ∅ ∅).map fun c => { p with cred := c }
  else (p.cred.setuid p.cred.ruid).map fun c => { p with cred := c }

/-- The privileges after an action; none when the program exits over a failure. -/
def perform (libcap : Bool) (p : Privileges) : Action → Option Privileges
  | .execute _ => some p
  | .limitCapabilities => limitCapabilities libcap p
  | .modifyCapability cap on => some (modifyCapability libcap cap on p)
  | .dropCapabilities => dropCapabilities libcap p

/-- Where code of mechanisms runs along a list of actions, and with which credentials. -/
def executions (libcap : Bool) (p : Privileges) : List Action → List (Hook × Credentials)
  | [] => []
  | action :: actions =>
    let here := match action with
      | .execute hook => [(hook, p.cred)]
      | _ => []
    here ++ match perform libcap p action with
      | none => []
      | some p => executions libcap p actions

end Coping
