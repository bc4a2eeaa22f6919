import Coping.Ai.Mechanisms

/-!
# With which privileges mechanisms run

`main` loads the mechanisms before it calls `limit_capabilities`: the constructors
of the first library that opens run with everything the program was started with.
The hooks of `coping_add_context` run behind `drop_capabilities`, where a build with
libcap has nothing left.
-/

namespace Coping.Privilege

open CFormat Credentials

/-- Wherever code of a mechanism runs, in any life of the process, it runs reduced. -/
def MechanismsReduced (granted : Finset Nat) (start : Credentials) (env : Environment) : Prop :=
  ∀ life, life <+: mainActions env →
    ∀ x ∈ executions env.libcap { cred := start } life, x.2.Reduced granted

/-- The program gets to loading mechanisms and the first one named is found. -/
def LibraryOpens (env : Environment) : Prop :=
  (env.apiKey = true ∨ env.noContext = true) ∧
    (env.mechanismNames.head?.bind (openMechanism env)).isSome = true

/-! ## Running lists of actions -/

/-- The privileges after a list of actions. -/
def after (libcap : Bool) (p : Privileges) : List Action → Option Privileges
  | [] => some p
  | action :: actions => (perform libcap p action).bind fun p => after libcap p actions

theorem executions_append (libcap : Bool) (p : Privileges) (front back : List Action) :
    executions libcap p (front ++ back) =
      executions libcap p front ++ ((after libcap p front).map fun p =>
        executions libcap p back).getD [] := by
  induction front generalizing p with
  | nil => rfl
  | cons action front ih =>
      simp only [List.cons_append, executions, after, List.append_assoc]
      cases perform libcap p action with
      | none => simp
      | some p => exact congrArg (List.append _) (ih p)

theorem executions_mono {libcap : Bool} {p : Privileges} {life actions : List Action}
    (h : life <+: actions) {x : Hook × Credentials} (hx : x ∈ executions libcap p life) :
    x ∈ executions libcap p actions := by
  obtain ⟨rest, rfl⟩ := h
  rw [executions_append]
  exact List.mem_append_left _ hx

theorem execute_mem_of_executions {libcap : Bool} {p : Privileges} {actions : List Action}
    {x : Hook × Credentials} (hx : x ∈ executions libcap p actions) :
    .execute x.1 ∈ actions := by
  induction actions generalizing p with
  | nil => cases hx
  | cons action actions ih =>
      obtain hhere | hrest := List.mem_append.mp hx
      · cases action with
        | execute hook =>
            obtain rfl := List.mem_singleton.mp hhere
            exact List.mem_cons_self
        | _ => cases hhere
      · cases hperform : perform libcap p action with
        | none =>
            rw [hperform] at hrest
            cases hrest
        | some p' =>
            rw [hperform] at hrest
            exact List.mem_cons_of_mem _ (ih hrest)

/-- A property of the privileges that every action of a list keeps holds wherever
code runs along it. -/
theorem executions_of_invariant (libcap : Bool) (I : Privileges → Prop) {actions : List Action}
    (step : ∀ p p' action, I p → action ∈ actions → perform libcap p action = some p' → I p')
    {p : Privileges} (start : I p) :
    (∀ x ∈ executions libcap p actions, ∃ p', I p' ∧ x.2 = p'.cred) ∧
      ∀ p', after libcap p actions = some p' → I p' := by
  induction actions generalizing p with
  | nil =>
      refine ⟨fun x hx => absurd hx List.not_mem_nil, ?_⟩
      intro p' hp
      cases hp
      exact start
  | cons action actions ih =>
      have hrest := fun p' (hp : perform libcap p action = some p') =>
        ih (fun p p' action hI hmem => step p p' action hI (List.mem_cons_of_mem _ hmem))
          (step p p' action start List.mem_cons_self hp)
      refine ⟨fun x hx => ?_, fun p' hafter => ?_⟩
      · obtain hhere | hlater := List.mem_append.mp hx
        · cases action with
          | execute hook =>
              obtain rfl := List.mem_singleton.mp hhere
              exact ⟨p, start, rfl⟩
          | _ => cases hhere
        · cases hperform : perform libcap p action with
          | none =>
              rw [hperform] at hlater
              cases hlater
          | some p' =>
              rw [hperform] at hlater
              exact (hrest p' hperform).1 x hlater
      · obtain ⟨middle, hperform, hlater⟩ := Option.bind_eq_some_iff.mp hafter
        exact (hrest middle hperform).2 p' hlater

/-! ## The life of the process -/

/-- Reduced; without libcap also with the caller's id in the variable `euid`. -/
structure StaysReduced (granted : Finset Nat) (libcap : Bool) (p : Privileges) : Prop where
  reduced : p.cred.Reduced granted
  saved : libcap = false → p.euid = p.cred.ruid

theorem limitCapabilities_spec {libcap : Bool} {p p' : Privileges}
    (limited : limitCapabilities libcap p = some p') :
    p'.cred.euid = p'.cred.ruid ∧ p'.cred.permitted ⊆ p.cred.permitted ∧
      (libcap = false → p'.euid = p.cred.euid ∧ p'.cred.ruid = p.cred.ruid) := by
  simp only [limitCapabilities] at limited
  cases libcap with
  | true =>
      obtain ⟨capped, hcap, hrest⟩ := Option.bind_eq_some_iff.mp limited
      obtain ⟨own, hown, rfl⟩ := Option.map_eq_some_iff.mp hrest
      obtain ⟨-, -, hpermitted, hsub⟩ := capset_spec hcap
      obtain ⟨hruid, heuid, hsub'⟩ := @setuid_ruid_spec (capped.setKeepCaps true) _ hown
      refine ⟨heuid.trans hruid.symm, hsub'.trans ?_, fun h => by cases h⟩
      exact (subset_of_eq hpermitted).trans hsub
  | false =>
      obtain ⟨own, hown, rfl⟩ := Option.map_eq_some_iff.mp limited
      obtain ⟨hruid, heuid, hsub⟩ := seteuid_spec hown
      exact ⟨heuid.trans hruid.symm, hsub, fun _ => ⟨rfl, hruid⟩⟩

theorem limitCapabilities_reduced {granted : Finset Nat} {libcap : Bool} {p p' : Privileges}
    (h : p.cred.Reduced granted) (limited : limitCapabilities libcap p = some p') :
    StaysReduced granted libcap p' := by
  obtain ⟨huid, hsub, hsaved⟩ := limitCapabilities_spec limited
  refine ⟨h.of_subset huid hsub, ?_⟩
  intro hbuild
  obtain ⟨heuid, hruid⟩ := hsaved hbuild
  rw [heuid, hruid]
  exact h.uid

/-- With libcap the ids are left alone; without it, no capability is won. -/
theorem modifyCapability_spec (libcap : Bool) (cap : Nat) (on : Bool) (p : Privileges) :
    (modifyCapability libcap cap on p).cred.ruid = p.cred.ruid ∧
      (modifyCapability libcap cap on p).euid = p.euid ∧
      (modifyCapability libcap cap on p).cred.permitted ⊆ p.cred.permitted ∧
      ((modifyCapability libcap cap on p).cred.euid = p.cred.euid ∨
        (libcap = false ∧ ((modifyCapability libcap cap on p).cred.euid = p.euid ∨
          (modifyCapability libcap cap on p).cred.euid = p.cred.ruid))) := by
  simp only [modifyCapability]
  cases libcap with
  | true =>
      rw [if_pos rfl]
      split
      · dsimp only
        generalize (if on then insert cap p.cred.effective else p.cred.effective.erase cap) = e
        cases hcap : p.cred.capset p.cred.permitted e with
        | none => exact ⟨rfl, rfl, Finset.Subset.refl _, .inl rfl⟩
        | some c =>
            obtain ⟨hruid, heuid, hpermitted, -⟩ := capset_spec hcap
            exact ⟨hruid, rfl, subset_of_eq hpermitted, .inl heuid⟩
      · exact ⟨rfl, rfl, Finset.Subset.refl _, .inl rfl⟩
  | false =>
      rw [if_neg Bool.false_ne_true]
      dsimp only
      cases hset : p.cred.seteuid (if on then p.euid else p.cred.ruid) with
      | none => exact ⟨rfl, rfl, Finset.Subset.refl _, .inl rfl⟩
      | some c =>
          obtain ⟨hruid, heuid, hsub⟩ := seteuid_spec hset
          refine ⟨hruid, rfl, hsub, .inr ⟨rfl, ?_⟩⟩
          change c.euid = _ ∨ c.euid = _
          rw [heuid]
          cases on <;> simp

theorem dropCapabilities_spec {libcap : Bool} {p p' : Privileges}
    (dropped : dropCapabilities libcap p = some p') :
    p'.cred.ruid = p.cred.ruid ∧ p'.euid = p.euid ∧ p'.cred.permitted ⊆ p.cred.permitted ∧
      (libcap = true → p'.cred.permitted = ∅ ∧ p'.cred.euid = p.cred.euid) ∧
      (libcap = false → p'.cred.euid = p.cred.ruid) := by
  simp only [dropCapabilities] at dropped
  cases libcap with
  | true =>
      rw [if_pos rfl] at dropped
      obtain ⟨c, hcap, rfl⟩ := Option.map_eq_some_iff.mp dropped
      obtain ⟨hruid, heuid, hpermitted, hsub⟩ := capset_spec hcap
      exact ⟨hruid, rfl, (subset_of_eq hpermitted).trans hsub,
        fun _ => ⟨hpermitted, heuid⟩, fun h => by cases h⟩
  | false =>
      rw [if_neg Bool.false_ne_true] at dropped
      obtain ⟨c, hset, rfl⟩ := Option.map_eq_some_iff.mp dropped
      obtain ⟨hruid, heuid, hsub⟩ := setuid_ruid_spec hset
      exact ⟨hruid, rfl, hsub, (fun h => by cases h), fun _ => heuid⟩

theorem StaysReduced.perform {granted : Finset Nat} {libcap : Bool} {p p' : Privileges}
    {action : Action} (h : StaysReduced granted libcap p)
    (performed : perform libcap p action = some p') : StaysReduced granted libcap p' := by
  cases action with
  | execute hook =>
      cases performed
      exact h
  | limitCapabilities => exact limitCapabilities_reduced h.reduced performed
  | modifyCapability cap on =>
      cases performed
      obtain ⟨hruid, heuid, hsub, hid⟩ := modifyCapability_spec libcap cap on p
      refine ⟨h.reduced.of_subset ?_ hsub, fun hbuild => ?_⟩
      · rw [hruid]
        obtain hid | ⟨hbuild, hid | hid⟩ := hid
        · rw [hid, h.reduced.uid]
        · rw [hid, h.saved hbuild]
        · exact hid
      · rw [heuid, hruid, h.saved hbuild]
  | dropCapabilities =>
      obtain ⟨hruid, heuid, hsub, hcap, hplain⟩ := dropCapabilities_spec performed
      refine ⟨h.reduced.of_subset ?_ hsub, fun hbuild => ?_⟩
      · rw [hruid]
        cases libcap with
        | true => rw [(hcap rfl).2, h.reduced.uid]
        | false => exact hplain rfl
      · rw [heuid, hruid, h.saved hbuild]

/-- The loader does nothing to the privileges. -/
theorem loadMechanisms_executes (env : Environment) (names : List (List UInt8)) :
    ∀ action ∈ (loadMechanisms env names).1,
      action = .execute .dlopen ∨ action = .execute .onLoad := by
  induction names with
  | nil => exact fun action h => absurd h List.not_mem_nil
  | cons name names ih =>
      intro action hmem
      simp only [loadMechanisms] at hmem
      split at hmem
      · cases hmem
      · next mech hopen =>
          obtain rfl | hmem := List.mem_cons.mp hmem
          · exact .inl rfl
          obtain hhook | hrest := List.mem_append.mp hmem
          · simp only [hookIf] at hhook
            split at hhook
            · exact .inr (List.mem_singleton.mp hhook)
            · cases hhook
          · exact ih action hrest

/-- What follows on loading. -/
def loadedActions (env : Environment) : Option (List Mechanism) → List Action
  | none => []
  | some mechs => .limitCapabilities :: enabled true CAP_NET_RAW ++ runActions env mechs env.runs

theorem mainActions_eq (env : Environment) :
    mainActions env =
      if env.apiKey = true ∨ env.noContext = true then
        (loadMechanisms env env.mechanismNames).1 ++
          loadedActions env (loadMechanisms env env.mechanismNames).2
      else [] := by
  simp only [mainActions]
  cases env.apiKey <;> cases env.noContext <;> rfl

/-- Loading leaves the privileges of the start. -/
theorem executions_load (env : Environment) (p : Privileges) :
    (∀ x ∈ executions env.libcap p (loadMechanisms env env.mechanismNames).1, x.2 = p.cred) ∧
      ∀ p', after env.libcap p (loadMechanisms env env.mechanismNames).1 = some p' → p' = p := by
  obtain ⟨hload, hafter⟩ := executions_of_invariant env.libcap (· = p)
    (fun q q' action hq hmem hperform => by
      obtain rfl | rfl := loadMechanisms_executes env _ action hmem <;> cases hperform <;>
        exact hq) rfl
  refine ⟨?_, hafter⟩
  intro x hx
  obtain ⟨q, rfl, hcred⟩ := hload x hx
  exact hcred

/-- Whatever runs behind `limit_capabilities` in a process that started reduced runs
reduced. -/
theorem executions_loaded {granted : Finset Nat} {env : Environment} {p : Privileges}
    (h : p.cred.Reduced granted) {loaded : Option (List Mechanism)} {x : Hook × Credentials}
    (hx : x ∈ executions env.libcap p (loadedActions env loaded)) : x.2.Reduced granted := by
  cases loaded with
  | none => cases hx
  | some mechs =>
      change x ∈ [] ++ _ at hx
      rw [List.nil_append] at hx
      cases hlimit : perform env.libcap p .limitCapabilities with
      | none =>
          rw [hlimit] at hx
          cases hx
      | some limited =>
          rw [hlimit] at hx
          obtain ⟨q, hq, hcred⟩ := (executions_of_invariant env.libcap
            (StaysReduced granted env.libcap) (fun _ _ _ hI _ hperform => hI.perform hperform)
            (limitCapabilities_reduced h hlimit)).1 x hx
          rw [hcred]
          exact hq.reduced

theorem executions_reduced {granted : Finset Nat} {start : Credentials} (env : Environment)
    (h : start.Reduced granted) {x : Hook × Credentials}
    (hx : x ∈ executions env.libcap { cred := start } (mainActions env)) :
    x.2.Reduced granted := by
  rw [mainActions_eq] at hx
  split at hx
  · obtain ⟨hload, hafter⟩ := executions_load env { cred := start }
    rw [executions_append] at hx
    obtain hfirst | hrest := List.mem_append.mp hx
    · rw [hload x hfirst]
      exact h
    · cases hend : after env.libcap { cred := start } (loadMechanisms env env.mechanismNames).1 with
      | none =>
          rw [hend] at hrest
          cases hrest
      | some p =>
          rw [hend, hafter p hend] at hrest
          exact executions_loaded h hrest
  · cases hx

theorem execute_notMem_enabled (hook : Hook) (needed : Bool) (cap : Nat) :
    .execute hook ∉ enabled needed cap := by
  cases needed <;> simp [enabled]

theorem execute_notMem_probeActions (hook : Hook) (run : AddressRun) :
    .execute hook ∉ probeActions run := by
  simp only [probeActions]
  split <;> split <;> simp [execute_notMem_enabled]

theorem execute_notMem_setupActions (hook : Hook) (run : AddressRun) :
    .execute hook ∉ setupActions run := by
  simp only [setupActions]
  cases run.family <;> simp [execute_notMem_enabled]

theorem execute_notMem_runActions (hook : Hook) (env : Environment) (runs : List AddressRun) :
    .execute hook ∉ runActions env [] runs := by
  induction runs with
  | nil => exact List.not_mem_nil
  | cons run runs ih =>
      have hcontext : contextActions env [] = [] := by
        simp only [contextActions]
        split
        · rfl
        · split <;> rfl
      simp only [runActions]
      split
      · simp [execute_notMem_probeActions, ih]
      · simp [execute_notMem_probeActions, execute_notMem_setupActions, hcontext]

/-- Without a library there is no code of a mechanism. -/
theorem no_executions {env : Environment} (h : ¬LibraryOpens env) (hook : Hook) :
    .execute hook ∉ mainActions env := by
  rw [mainActions_eq]
  split
  · next hgate =>
      have hnone : ¬(env.mechanismNames.head?.bind (openMechanism env)).isSome = true :=
        fun hsome => h ⟨hgate, hsome⟩
      cases hnames : env.mechanismNames with
      | nil =>
          simp [loadMechanisms, loadedActions, execute_notMem_enabled, execute_notMem_runActions]
      | cons name names =>
          rw [hnames] at hnone
          have hclosed : openMechanism env name = none := by simpa using hnone
          simp [loadMechanisms, hclosed, loadedActions]
  · exact List.not_mem_nil

theorem loadMechanisms_of_opens {env : Environment} (h : LibraryOpens env) :
    ∃ rest, (loadMechanisms env env.mechanismNames).1 = .execute .dlopen :: rest := by
  obtain ⟨-, hfirst⟩ := h
  cases hnames : env.mechanismNames with
  | nil =>
      rw [hnames] at hfirst
      cases hfirst
  | cons name names =>
      rw [hnames] at hfirst
      obtain ⟨mech, hopen⟩ := Option.isSome_iff_exists.mp hfirst
      change openMechanism env name = some mech at hopen
      simp only [loadMechanisms]
      rw [hopen]
      exact ⟨_, rfl⟩

/-- The constructors of the first library run with the privileges of the start. -/
theorem dlopen_executed {env : Environment} (h : LibraryOpens env) (start : Credentials) :
    (.dlopen, start) ∈ executions env.libcap { cred := start } (mainActions env) := by
  obtain ⟨rest, hload⟩ := loadMechanisms_of_opens h
  rw [mainActions_eq, if_pos h.1, hload]
  exact List.mem_append_left _ (List.mem_singleton_self _)

/-- Mechanism code runs reduced in every life of the process exactly when the program
was started without any extra privilege or gets no library loaded. -/
theorem mechanisms_reduced_iff (granted : Finset Nat) (start : Credentials) (env : Environment) :
    MechanismsReduced granted start env ↔ start.Reduced granted ∨ ¬LibraryOpens env := by
  constructor
  · intro reduced
    by_cases hopens : LibraryOpens env
    · exact .inl (reduced _ List.prefix_rfl _ (dlopen_executed hopens start))
    · exact .inr hopens
  · rintro (hstart | hclosed) life hlife x hx
    · exact executions_reduced env hstart (executions_mono hlife hx)
    · exact absurd (execute_mem_of_executions (executions_mono hlife hx)) (no_executions hclosed _)

/-! ## The hooks of the summary -/

theorem after_append (libcap : Bool) (p : Privileges) (front back : List Action) :
    after libcap p (front ++ back) =
      (after libcap p front).bind fun p => after libcap p back := by
  induction front generalizing p with
  | nil => rfl
  | cons action front ih =>
      rw [List.cons_append, after, after, Option.bind_assoc]
      congr 1
      funext p
      exact ih p

/-- A list without hooks runs no code. -/
theorem executions_append_of_notMem {libcap : Bool} {p : Privileges} {front back : List Action}
    (silent : ∀ hook, .execute hook ∉ front) {x : Hook × Credentials}
    (hx : x ∈ executions libcap p (front ++ back)) :
    ∃ p', after libcap p front = some p' ∧ x ∈ executions libcap p' back := by
  rw [executions_append] at hx
  obtain hfirst | hrest := List.mem_append.mp hx
  · exact absurd (execute_mem_of_executions hfirst) (silent _)
  · cases hend : after libcap p front with
    | none =>
        rw [hend] at hrest
        cases hrest
    | some p' =>
        rw [hend] at hrest
        exact ⟨p', rfl, hrest⟩

theorem perform_ownId {p p' : Privileges} {action : Action} (h : p.cred.euid = p.cred.ruid)
    (performed : perform true p action = some p') : p'.cred.euid = p'.cred.ruid := by
  cases action with
  | execute hook =>
      cases performed
      exact h
  | limitCapabilities => exact (limitCapabilities_spec performed).1
  | modifyCapability cap on =>
      cases performed
      obtain ⟨hruid, -, -, hid | ⟨hbuild, -⟩⟩ := modifyCapability_spec true cap on p
      · rw [hid, hruid, h]
      · cases hbuild
  | dropCapabilities =>
      obtain ⟨hruid, -, -, hcap, -⟩ := dropCapabilities_spec performed
      rw [(hcap rfl).2, hruid, h]

theorem contextActions_executes (env : Environment) (mechs : List Mechanism) :
    ∀ action ∈ contextActions env mechs, ∃ hook, action = .execute hook := by
  have hhooks : ∀ (exported : Mechanism → Bool) (hook : Hook) (action : Action),
      action ∈ mechs.flatMap (fun mech => hookIf (exported mech) hook) →
        ∃ hook, action = .execute hook := by
    intro exported hook action hmem
    obtain ⟨mech, -, hmem⟩ := List.mem_flatMap.mp hmem
    simp only [hookIf] at hmem
    split at hmem
    · exact ⟨hook, List.mem_singleton.mp hmem⟩
    · cases hmem
  intro action hmem
  simp only [contextActions] at hmem
  split at hmem
  · cases hmem
  obtain hmem | hmem := List.mem_append.mp hmem
  · obtain hmem | hmem := List.mem_append.mp hmem
    · exact hhooks _ _ _ hmem
    · exact hhooks _ _ _ hmem
  · split at hmem
    · exact hhooks _ _ _ hmem
    · cases hmem

/-- Every code behind `limit_capabilities` runs with the caller's id and without a
capability. -/
theorem executions_runActions {env : Environment} {mechs : List Mechanism}
    (runs : List AddressRun) {p : Privileges} (h : p.cred.euid = p.cred.ruid)
    {x : Hook × Credentials} (hx : x ∈ executions true p (runActions env mechs runs)) :
    x.2.euid = x.2.ruid ∧ x.2.permitted = ∅ := by
  have hown : ∀ {q q' actions}, q.cred.euid = q.cred.ruid → after true q actions = some q' →
      q'.cred.euid = q'.cred.ruid := fun hq hafter =>
    (executions_of_invariant true (fun q => q.cred.euid = q.cred.ruid)
      (fun _ _ _ hI _ hperform => perform_ownId hI hperform) hq).2 _ hafter
  induction runs generalizing p with
  | nil => cases hx
  | cons run runs ih =>
      simp only [runActions] at hx
      split at hx
      · obtain ⟨q, hq, hx⟩ := executions_append_of_notMem
          (fun hook => execute_notMem_probeActions hook run) hx
        exact ih (hown h hq) hx
      · rw [List.append_assoc] at hx
        obtain ⟨q, hq, hx⟩ := executions_append_of_notMem
          (fun hook => execute_notMem_probeActions hook run) hx
        obtain ⟨dropped, hdropped, hx⟩ := executions_append_of_notMem
          (fun hook => execute_notMem_setupActions hook run) hx
        have hid := hown (hown h hq) hdropped
        have hnone : dropped.cred.permitted = ∅ := by
          simp only [setupActions] at hdropped
          rw [after_append] at hdropped
          obtain ⟨ready, -, hdrop⟩ := Option.bind_eq_some_iff.mp hdropped
          obtain ⟨last, hlast, hsame⟩ := Option.bind_eq_some_iff.mp hdrop
          cases hsame
          obtain ⟨-, -, -, hcap, -⟩ := dropCapabilities_spec hlast
          exact (hcap rfl).1
        -- The hooks themselves change nothing.
        obtain ⟨r, rfl, hcred⟩ := (executions_of_invariant true (· = dropped)
          (fun q q' action hq hmem hperform => by
            obtain ⟨hook, rfl⟩ := contextActions_executes env mechs action hmem
            cases hperform
            exact hq) rfl).1 x hx
        rw [hcred]
        exact ⟨hid, hnone⟩

/-- In a build with libcap the hooks of `coping_add_context` run without any privilege,
however the program was started. -/
theorem finish_hooks_reduced {env : Environment} (start : Credentials) (build : env.libcap = true)
    {x : Hook × Credentials}
    (hx : x ∈ executions env.libcap { cred := start } (mainActions env))
    (late : x.1 ≠ .dlopen ∧ x.1 ≠ .onLoad) : x.2.euid = x.2.ruid ∧ x.2.permitted = ∅ := by
  rw [mainActions_eq] at hx
  split at hx
  · have hearly : x ∉ executions env.libcap { cred := start }
        (loadMechanisms env env.mechanismNames).1 := by
      intro hload
      have hmem := loadMechanisms_executes env _ _ (execute_mem_of_executions hload)
      simp only [Action.execute.injEq] at hmem
      exact hmem.elim late.1 late.2
    rw [executions_append] at hx
    have hrest := (List.mem_append.mp hx).resolve_left hearly
    cases hend : after env.libcap { cred := start } (loadMechanisms env env.mechanismNames).1 with
    | none =>
        rw [hend] at hrest
        cases hrest
    | some p =>
        rw [hend, build] at hrest
        cases hloaded : (loadMechanisms env env.mechanismNames).2 with
        | none =>
            rw [hloaded] at hrest
            cases hrest
        | some mechs =>
            rw [hloaded] at hrest
            change x ∈ executions true p ([.limitCapabilities] ++ (enabled true CAP_NET_RAW ++
              runActions env mechs env.runs)) at hrest
            obtain ⟨limited, hlimited, hrest⟩ := executions_append_of_notMem (by simp) hrest
            obtain ⟨ready, hready, hrest⟩ := executions_append_of_notMem
              (fun hook => execute_notMem_enabled hook true CAP_NET_RAW) hrest
            obtain ⟨q, hq, hq'⟩ := Option.bind_eq_some_iff.mp hlimited
            cases hq'
            have hown := (executions_of_invariant true (fun q => q.cred.euid = q.cred.ruid)
              (fun _ _ _ hI _ hperform => perform_ownId hI hperform)
              (limitCapabilities_spec hq).1).2 _ hready
            exact executions_runActions env.runs hown hrest
  · cases hx

/-! ## A privileged start -/

/-- Started by user 1000 from a set-uid root file. -/
def setuidRoot : Credentials where
  ruid := 1000
  euid := 0
  suid := 0
  permitted := {CAP_SETUID, CAP_NET_ADMIN, CAP_NET_RAW}
  effective := {CAP_SETUID, CAP_NET_ADMIN, CAP_NET_RAW}
  effective_subset := Finset.Subset.refl _

/-- `--mechanism=x` with a library in the current directory of the caller. -/
def callersLibrary (libcap : Bool) : Environment where
  libcap := libcap
  mechanismNames := [ascii "x"]
  dlopen path := if path = ascii "./mechanisms/x.so" then some {} else none

theorem callersLibrary_opens (libcap : Bool) : LibraryOpens (callersLibrary libcap) :=
  ⟨.inl rfl, by cases libcap <;> decide +kernel⟩

/-- The caller's library runs as root, in either build. -/
theorem mechanisms_reduced_fails_setuid :
    ¬MechanismsReduced ∅ setuidRoot (callersLibrary true) ∧
      ¬MechanismsReduced ∅ setuidRoot (callersLibrary false) := by
  have hroot : ¬setuidRoot.Reduced ∅ := fun reduced => absurd reduced.uid (by decide)
  exact ⟨fun reduced => hroot (reduced _ List.prefix_rfl _
      (dlopen_executed (callersLibrary_opens true) setuidRoot)),
    fun reduced => hroot (reduced _ List.prefix_rfl _
      (dlopen_executed (callersLibrary_opens false) setuidRoot))⟩

end Coping.Privilege
