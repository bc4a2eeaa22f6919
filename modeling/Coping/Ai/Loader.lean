import Coping.Ai.Arguments
import Coping.Ai.Mechanisms

/-!
# The loader of mechanisms

`load_mechanisms` of `coping_ai.c` with its table of directories. The table has the two slots
that it is declared with; a read behind them has no result, and neither has a mechanism that is
stored behind `g_mechs`.
-/

namespace Coping.Loader

open CFormat

/-- A library that `dlopen` has opened, by what it exports. -/
structure Library where
  mechName : Option (List UInt8) := none
  mechDescription : Option (List UInt8) := none
  hooks : Mechanism := {}

/-- `coping_mechanism_t` -/
structure Loaded where
  handle : Library
  name : List UInt8
  description : Option (List UInt8)
  hooks : Mechanism

/-- The outcome of the call for the name `i` in the directory `d`. -/
abbrev Dlopen := Nat → Nat → List UInt8 → Option Library

inductive Result where
  /-- `g_mechs` at the return. -/
  | loaded (mechs : List Loaded)
  /-- `exit(1)` after this message. -/
  | exited (message : List UInt8)

/-- The static array `home_mech_dir`, which is empty without `HOME`. -/
def homeMechDir : Option (List UInt8) → List UInt8
  | some home => truncated 512 (home ++ ascii "/.coping/mechanisms")
  | none => []

/-- `mech_search_dirs`, after the assignment to its last slot. -/
def mechSearchDirs (home : Option (List UInt8)) : List (Option (List UInt8)) :=
  [some (ascii "./mechanisms"), none].set 1 (some (homeMechDir home))

def libraryPath (dir name : List UInt8) : List UInt8 :=
  truncated 600 (dir ++ ascii "/" ++ name ++ ascii ".so")

/-- The loop over the directories. The slot is read before `handle` is looked at. -/
def search (dirs : List (Option (List UInt8))) (dlopen : Nat → List UInt8 → Option Library)
    (name : List UInt8) (d : Nat) (handle : Option Library) : Option (Option Library) :=
  if h : d < dirs.length then
    match dirs[d], handle with
    | some dir, none => search dirs dlopen name (d + 1) (dlopen d (libraryPath dir name))
    | _, handle => some handle
  else none
termination_by dirs.length - d

def notFound (name dlerror : List UInt8) : List UInt8 :=
  ascii "\n  [mechanism error] '" ++ name ++
    ascii "' not found in ./mechanisms/ or ~/.coping/mechanisms/\n  " ++ dlerror ++ ascii "\n\n"

def Loaded.of (name : List UInt8) (handle : Library) : Loaded where
  handle := handle
  name := handle.mechName.getD name
  description := handle.mechDescription
  hooks := handle.hooks

section Load

variable (dirs : List (Option (List UInt8))) (dlopen : Dlopen) (dlerror : List UInt8)

/-- The loop over the names, from the name `i` on. -/
def loadLoop : List (List UInt8) → Nat → List Loaded → Option Result
  | [], _, mechs => some (.loaded mechs)
  | name :: names, i, mechs => do
    match ← search dirs (dlopen i) name 0 none with
    | none => return .exited (notFound name dlerror)
    | some handle =>
      if mechs.length < COPING_MAX_MECHS then
        loadLoop names (i + 1) (mechs ++ [Loaded.of name handle])
      else none

end Load

def load (home : Option (List UInt8)) (dlopen : Dlopen) (dlerror : List UInt8)
    (names : List (List UInt8)) : Option Result :=
  loadLoop (mechSearchDirs home) dlopen dlerror names 0 []

end Coping.Loader
