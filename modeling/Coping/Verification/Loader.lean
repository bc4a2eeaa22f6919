import Coping.Ai.Loader

/-!
# The directories of mechanisms

The loader overwrites the null pointer at the end of its table, so only a library in the first
directory ends the search inside the table. The second one is tried, but whatever comes of it
the loader goes on to read the slot behind.
-/

namespace Coping.Loader

open CFormat

section Claim

variable (home : Option (List UInt8)) (dlopen : Dlopen) (dlerror : List UInt8)
variable (names : List (List UInt8))

/-- The library of a name in the first directory where one opens. -/
def firstLibrary (i : Nat) (name : List UInt8) : Option Library :=
  [ascii "./mechanisms", homeMechDir home].zipIdx.findSome? fun dir =>
    dlopen i dir.2 (libraryPath dir.1 name)

/-- Every name has its library, in the order of the names. -/
def Bound (mechs : List Loaded) : Prop :=
  mechs.length = names.length ∧ ∀ i name, names[i]? = some name →
    ∃ handle, firstLibrary home dlopen i name = some handle ∧
      mechs[i]? = some (Loaded.of name handle)

/-- The message is about the first name without a library. -/
def Missing (message : List UInt8) : Prop :=
  ∃ i name, names[i]? = some name ∧ firstLibrary home dlopen i name = none ∧
    message = notFound name dlerror ∧
    ∀ j earlier, j < i → names[j]? = some earlier → (firstLibrary home dlopen j earlier).isSome

/-- The loader reads only existing slots, and it binds the names or reports one. -/
def Loads : Prop :=
  (∃ mechs, load home dlopen dlerror names = some (.loaded mechs) ∧
    Bound home dlopen names mechs) ∨
  ∃ message, load home dlopen dlerror names = some (.exited message) ∧
    Missing home dlopen dlerror names message

/-- Every name has a library in `./mechanisms`. -/
def AllLocal : Prop :=
  ∀ i name, names[i]? = some name →
    (dlopen i 0 (libraryPath (ascii "./mechanisms") name)).isSome

end Claim

section Search

variable {home : Option (List UInt8)} {dlopen : Dlopen} {dlerror name : List UInt8}
variable {names : List (List UInt8)} {mechs : List Loaded} {handle : Library} {i : Nat}

/-- Only the first directory ends the search. -/
theorem search_eq (opens : Nat → List UInt8 → Option Library) :
    search (mechSearchDirs home) opens name 0 none =
      (opens 0 (libraryPath (ascii "./mechanisms") name)).map some := by
  have hfirst : search (mechSearchDirs home) opens name 0 none =
      search (mechSearchDirs home) opens name 1
        (opens 0 (libraryPath (ascii "./mechanisms") name)) := by
    rw [search, dif_pos (show 0 < (mechSearchDirs home).length from Nat.succ_pos 1)]
    rfl
  have hinside : 1 < (mechSearchDirs home).length := Nat.lt_succ_self 1
  rw [hfirst, search, dif_pos hinside]
  cases opens 0 (libraryPath (ascii "./mechanisms") name) with
  | some handle => rfl
  | none =>
      change search _ _ _ 2 _ = none
      rw [search, dif_neg (show ¬2 < (mechSearchDirs home).length from Nat.lt_irrefl 2)]

theorem firstLibrary_local
    (found : dlopen i 0 (libraryPath (ascii "./mechanisms") name) = some handle) :
    firstLibrary home dlopen i name = some handle := by
  rw [firstLibrary, List.zipIdx_cons, List.findSome?_cons, found]

theorem loadLoop_found
    (found : dlopen i 0 (libraryPath (ascii "./mechanisms") name) = some handle)
    (room : mechs.length < COPING_MAX_MECHS) :
    loadLoop (mechSearchDirs home) dlopen dlerror (name :: names) i mechs =
      loadLoop (mechSearchDirs home) dlopen dlerror names (i + 1)
        (mechs ++ [Loaded.of name handle]) := by
  rw [loadLoop, search_eq, found, Option.map_some, Option.bind_eq_bind, Option.bind_some]
  exact if_pos room

theorem loadLoop_full
    (found : dlopen i 0 (libraryPath (ascii "./mechanisms") name) = some handle)
    (full : ¬mechs.length < COPING_MAX_MECHS) :
    loadLoop (mechSearchDirs home) dlopen dlerror (name :: names) i mechs = none := by
  rw [loadLoop, search_eq, found, Option.map_some, Option.bind_eq_bind, Option.bind_some]
  exact if_neg full

theorem loadLoop_outside
    (missing : dlopen i 0 (libraryPath (ascii "./mechanisms") name) = none) :
    loadLoop (mechSearchDirs home) dlopen dlerror (name :: names) i mechs = none := by
  rw [loadLoop, search_eq, missing, Option.map_none, Option.bind_eq_bind, Option.bind_none]

/-- With libraries in the first directory the loop goes on to the end. -/
theorem loadLoop_local : ∀ {names : List (List UInt8)} {i : Nat} {mechs : List Loaded},
    (∀ k name, names[k]? = some name →
      (dlopen (i + k) 0 (libraryPath (ascii "./mechanisms") name)).isSome) →
    mechs.length + names.length ≤ COPING_MAX_MECHS →
    ∃ more, loadLoop (mechSearchDirs home) dlopen dlerror names i mechs =
        some (.loaded (mechs ++ more)) ∧ more.length = names.length ∧
      ∀ k name, names[k]? = some name → ∃ handle,
        firstLibrary home dlopen (i + k) name = some handle ∧
          more[k]? = some (Loaded.of name handle)
  | [], i, mechs, _, _ => by
      refine ⟨[], ?_, rfl, ?_⟩
      · rw [loadLoop, List.append_nil]
      · intro k name hname
        cases hname
  | name :: names, i, mechs, found, room => by
      rw [List.length_cons] at room
      obtain ⟨handle, hfound⟩ := Option.isSome_iff_exists.mp (found 0 name rfl)
      rw [Nat.add_zero] at hfound
      have hrest : ∀ k name, names[k]? = some name →
          (dlopen (i + 1 + k) 0 (libraryPath (ascii "./mechanisms") name)).isSome := by
        intro k name hname
        rw [Nat.add_assoc, Nat.add_comm 1 k]
        exact found (k + 1) name hname
      obtain ⟨more, hload, hlength, hmore⟩ := @loadLoop_local names (i + 1)
        (mechs ++ [Loaded.of name handle]) hrest (by
          rw [List.length_append, List.length_singleton]
          omega)
      refine ⟨Loaded.of name handle :: more, ?_, ?_, ?_⟩
      · rw [loadLoop_found hfound (by omega), hload, List.append_assoc, List.singleton_append]
      · rw [List.length_cons, List.length_cons, hlength]
      · intro k other hother
        cases k with
        | zero =>
            obtain rfl := Option.some.inj hother
            exact ⟨handle, firstLibrary_local hfound, rfl⟩
        | succ k =>
            rw [Nat.add_comm k 1, ← Nat.add_assoc, Nat.add_comm 1 k]
            exact hmore k other hother

/-- A name without one takes the search behind the table. -/
theorem loadLoop_missing : ∀ {names : List (List UInt8)} {i k : Nat} {mechs : List Loaded},
    names[k]? = some name → dlopen (i + k) 0 (libraryPath (ascii "./mechanisms") name) = none →
    loadLoop (mechSearchDirs home) dlopen dlerror names i mechs = none
  | [], _, _, _, hname, _ => by cases hname
  | first :: names, i, k, mechs, hname, missing => by
      cases hfirst : dlopen i 0 (libraryPath (ascii "./mechanisms") first) with
      | none => exact loadLoop_outside hfirst
      | some handle =>
          cases k with
          | zero =>
              obtain rfl := Option.some.inj hname
              cases hfirst.symm.trans missing
          | succ k =>
              by_cases hroom : mechs.length < COPING_MAX_MECHS
              · rw [loadLoop_found hfirst hroom]
                refine loadLoop_missing hname ?_
                rw [Nat.add_assoc, Nat.add_comm 1 k]
                exact missing
              · exact loadLoop_full hfirst hroom

end Search

section Actions

variable {env : Environment} {dlerror name : List UInt8}

/-- The libraries of an environment, in which a path has one library. -/
def libraries (env : Environment) : Dlopen := fun _ _ path =>
  (env.dlopen path).map fun hooks => { hooks := hooks }

theorem openMechanism_local {mech : Mechanism}
    (found : env.dlopen (libraryPath (ascii "./mechanisms") name) = some mech) :
    openMechanism env name = some mech := by
  rw [libraryPath] at found
  rw [openMechanism, searchDirs, List.findSome?_cons, found]

/-- The actions of `main` are those of the mechanisms that the loader returns with. -/
theorem loadMechanisms_of_loadLoop : ∀ {names : List (List UInt8)} {i : Nat}
    {mechs mechs' : List Loaded},
    loadLoop (mechSearchDirs env.home) (libraries env) dlerror names i mechs =
      some (.loaded mechs') →
    ∃ more, mechs' = mechs ++ more ∧
      (loadMechanisms env names).2 = some (more.map Loaded.hooks)
  | [], i, mechs, mechs', h => by
      rw [loadLoop] at h
      cases h
      exact ⟨[], (List.append_nil _).symm, rfl⟩
  | name :: names, i, mechs, mechs', h => by
      cases hmech : env.dlopen (libraryPath (ascii "./mechanisms") name) with
      | none =>
          have hmissing : libraries env i 0 (libraryPath (ascii "./mechanisms") name) = none := by
            rw [libraries, hmech, Option.map_none]
          cases (loadLoop_outside hmissing).symm.trans h
      | some mech =>
          have hfound : libraries env i 0 (libraryPath (ascii "./mechanisms") name) =
              some { hooks := mech } := by
            rw [libraries, hmech, Option.map_some]
          by_cases hroom : mechs.length < COPING_MAX_MECHS
          · rw [loadLoop_found hfound hroom] at h
            obtain ⟨more, hmore, hactions⟩ := loadMechanisms_of_loadLoop h
            refine ⟨Loaded.of name { hooks := mech } :: more, ?_, ?_⟩
            · rw [hmore, List.append_assoc, List.singleton_append]
            · rw [loadMechanisms, openMechanism_local hmech]
              change (loadMechanisms env names).2.map (mech :: ·) = _
              rw [hactions]
              rfl
          · rw [loadLoop_full hfound hroom] at h
            cases h

theorem loadMechanisms_of_load {names : List (List UInt8)} {mechs : List Loaded}
    (returns : load env.home (libraries env) dlerror names = some (.loaded mechs)) :
    (loadMechanisms env names).2 = some (mechs.map Loaded.hooks) := by
  obtain ⟨more, rfl, hactions⟩ := loadMechanisms_of_loadLoop returns
  exact hactions

end Actions

/-- The search stays inside its table if and only if no name has to be looked for in the second
directory. -/
theorem load_mechanisms_iff (home : Option (List UInt8)) (dlopen : Dlopen)
    (dlerror : List UInt8) (names : List (List UInt8)) (room : names.length ≤ COPING_MAX_MECHS) :
    Loads home dlopen dlerror names ↔ AllLocal dlopen names := by
  constructor
  · intro hloads i name hname
    by_contra hmissing
    have hnone : dlopen (0 + i) 0 (libraryPath (ascii "./mechanisms") name) = none := by
      rw [Nat.zero_add]
      exact Option.not_isSome_iff_eq_none.mp hmissing
    have houtside : load home dlopen dlerror names = none := loadLoop_missing hname hnone
    obtain ⟨mechs, hload, -⟩ | ⟨message, hload, -⟩ := hloads
    · cases houtside.symm.trans hload
    · cases houtside.symm.trans hload
  · intro hlocal
    obtain ⟨mechs, hload, hlength, hbound⟩ := @loadLoop_local home dlopen dlerror names 0 []
      (fun k name hname => by
        rw [Nat.zero_add]
        exact hlocal k name hname)
      (by
        rw [List.length_nil, Nat.zero_add]
        exact room)
    refine .inl ⟨mechs, hload, hlength, ?_⟩
    intro i name hname
    have hi := hbound i name hname
    rwa [Nat.zero_add] at hi

theorem load_mechanisms_iff_local :
    Loads none (fun _ _ _ => some {}) [] [ascii "joke", ascii "ad"] ↔
      AllLocal (fun _ _ _ => some {}) [ascii "joke", ascii "ad"] :=
  load_mechanisms_iff none (fun _ _ _ => some {}) [] [ascii "joke", ascii "ad"] (by decide)

/-- A library that is only in the home directory does open, and is not bound. -/
theorem load_mechanisms_outside :
    ¬Loads (some (ascii "/home/me")) (fun _ d _ => if d = 1 then some {} else none) []
      [ascii "joke"] := by
  intro hloads
  have hnone : load (some (ascii "/home/me")) (fun _ d _ => if d = 1 then some {} else none) []
      [ascii "joke"] = none := loadLoop_missing (k := 0) rfl rfl
  obtain ⟨mechs, hload, -⟩ | ⟨message, hload, -⟩ := hloads
  · cases hnone.symm.trans hload
  · cases hnone.symm.trans hload

end Coping.Loader
