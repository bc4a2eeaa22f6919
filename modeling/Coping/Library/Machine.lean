import Mathlib.Data.List.Forall2

/-!
# Machines answering events, and what holds along their runs

A machine answers an event by its next state, or refuses it. `Always P s es`
says that `P` holds in the state `s` and after each event of `es`; `Guarded G s es`
says that every event meets `G` in the state in which it arrives. A refused event
ends the run, so nothing is asked of the events behind it.

The rules below turn what one step preserves into what a whole run preserves.
`Always.of_invariant` is the plain induction. `Always.of_assumption` lets the
steps use a property that the run is known to have in every state, and
`always_iff_guarded` compares a property of the states with a condition on the
steps that is exact for one step. `final_simulated` carries a run over to a machine that
another one refines, and `final_related` compares two machines on the same events. A `logged`
machine is the same one with a log of what it has done, for what the states alone do not tell.
-/

section Related

variable {α β γ δ : Type*} {R : α → β → Prop} {S : γ → δ → Prop} {x : Option α} {y : Option β}

theorem Option.Rel.map {f : α → γ} {g : β → δ} (h : Option.Rel R x y)
    (next : ∀ a b, R a b → S (f a) (g b)) : Option.Rel S (x.map f) (y.map g) := by
  cases h with
  | some hab => exact .some (next _ _ hab)
  | none => exact .none

/-- What related values have in common. -/
theorem Option.Rel.map_eq {f : α → γ} {g : β → γ} (h : Option.Rel R x y)
    (same : ∀ a b, R a b → f a = g b) : x.map f = y.map g := by
  cases h with
  | some hab => exact congrArg Option.some (same _ _ hab)
  | none => rfl

theorem Option.Rel.imp {R' : α → β → Prop} (h : Option.Rel R x y)
    (weaken : ∀ a b, x = .some a → R a b → R' a b) : Option.Rel R' x y := by
  cases h with
  | some hab => exact .some (weaken _ _ rfl hab)
  | none => exact .none

end Related

/-- A transition system whose steps are labelled by events. -/
structure Machine (σ : Type*) (ε : Type*) where
  step : σ → ε → Option σ

namespace Machine

variable {σ ε : Type*}

/-- A machine that refuses no event. -/
def ofTotal (f : σ → ε → σ) : Machine σ ε where
  step s e := some (f s e)

@[simp] theorem ofTotal_step (f : σ → ε → σ) (s : σ) (e : ε) :
    (ofTotal f).step s e = some (f s e) := rfl

/-- `P` holds in every state of the run that `es` drives from the given state. -/
def Always (M : Machine σ ε) (P : σ → Prop) : σ → List ε → Prop
  | s, [] => P s
  | s, e :: es => P s ∧ ∀ t, M.step s e = some t → M.Always P t es

/-- Every event of the run meets `G` in the state in which it arrives. -/
def Guarded (M : Machine σ ε) (G : σ → ε → Prop) : σ → List ε → Prop
  | _, [] => True
  | s, e :: es => G s e ∧ ∀ t, M.step s e = some t → M.Guarded G t es

/-- The state after all events, when none of them is refused. -/
def final (M : Machine σ ε) : σ → List ε → Option σ
  | s, [] => some s
  | s, e :: es => (M.step s e).bind fun t => M.final t es

variable {M : Machine σ ε} {P Q I : σ → Prop} {G : σ → ε → Prop} {s t : σ} {e : ε}
variable {es : List ε}

@[simp] theorem always_nil : M.Always P s [] ↔ P s := Iff.rfl

@[simp] theorem always_cons :
    M.Always P s (e :: es) ↔ P s ∧ ∀ t, M.step s e = some t → M.Always P t es := Iff.rfl

@[simp] theorem guarded_nil : M.Guarded G s [] := trivial

@[simp] theorem guarded_cons :
    M.Guarded G s (e :: es) ↔ G s e ∧ ∀ t, M.step s e = some t → M.Guarded G t es := Iff.rfl

@[simp] theorem final_nil : M.final s [] = some s := rfl

@[simp] theorem final_cons :
    M.final s (e :: es) = (M.step s e).bind fun t => M.final t es := rfl

theorem Always.head (h : M.Always P s es) : P s := by
  cases es with
  | nil => exact h
  | cons e es => exact h.1

theorem Always.mono (h : M.Always P s es) (weaken : ∀ s, P s → Q s) : M.Always Q s es := by
  induction es generalizing s with
  | nil => exact weaken s h
  | cons e es ih => exact ⟨weaken s h.1, fun t ht => ih (h.2 t ht)⟩

/-- The property of every state holds in particular in the last one. -/
theorem Always.final (h : M.Always P s es) (run : M.final s es = some t) : P t := by
  induction es generalizing s with
  | nil =>
      cases run
      exact h
  | cons e es ih =>
      obtain ⟨middle, hstep, hrest⟩ := Option.bind_eq_some_iff.mp run
      exact ih (h.2 middle hstep) hrest

theorem final_ofTotal (f : σ → ε → σ) (s : σ) (es : List ε) :
    (ofTotal f).final s es = some (es.foldl f s) := by
  induction es generalizing s with
  | nil => rfl
  | cons e es ih => exact ih (f s e)

theorem final_append {es' : List ε} :
    M.final s (es ++ es') = (M.final s es).bind fun t => M.final t es' := by
  induction es generalizing s with
  | nil => rfl
  | cons e es ih =>
      rw [List.cons_append, final_cons, final_cons, Option.bind_assoc]
      congr 1
      funext t
      exact ih

theorem guarded_append {es' : List ε} :
    M.Guarded G s (es ++ es') ↔
      M.Guarded G s es ∧ ∀ t, M.final s es = some t → M.Guarded G t es' := by
  induction es generalizing s with
  | nil => simp
  | cons e es ih =>
      simp only [List.cons_append, guarded_cons, final_cons, Option.bind_eq_some_iff]
      constructor
      · rintro ⟨hg, hrest⟩
        refine ⟨⟨hg, fun t ht => (ih.mp (hrest t ht)).1⟩, ?_⟩
        rintro u ⟨t, ht, hu⟩
        exact (ih.mp (hrest t ht)).2 u hu
      · rintro ⟨⟨hg, hrest⟩, hlast⟩
        exact ⟨hg, fun t ht => ih.mpr ⟨hrest t ht, fun u hu => hlast u ⟨t, ht, hu⟩⟩⟩

/-- Induction along a run whose every state is known to satisfy `Q`: the
invariant may be carried over a step with `Q` at both of its ends. -/
theorem Always.of_assumption (start : I s)
    (step : ∀ s e t, I s → Q s → G s e → M.step s e = some t → Q t → I t)
    (conclude : ∀ s, I s → Q s → P s)
    (assumption : M.Always Q s es) (guarded : M.Guarded G s es) : M.Always P s es := by
  induction es generalizing s with
  | nil => exact conclude s start assumption
  | cons e es ih =>
      refine ⟨conclude s start assumption.1, ?_⟩
      intro t ht
      have rest := assumption.2 t ht
      exact ih (step s e t start assumption.1 guarded.1 ht rest.head) rest (guarded.2 t ht)

/-- An invariant kept by every guarded step holds along every guarded run. -/
theorem Always.of_invariant (start : I s)
    (step : ∀ s e t, I s → G s e → M.step s e = some t → I t)
    (guarded : M.Guarded G s es) : M.Always I s es := by
  induction es generalizing s with
  | nil => exact start
  | cons e es ih =>
      exact ⟨start, fun t ht => ih (step s e t start guarded.1 ht) (guarded.2 t ht)⟩

/-- An invariant that every guarded step keeps turns the guard into what it gives there. -/
theorem Guarded.of_invariant {G' : σ → ε → Prop} (start : I s)
    (step : ∀ s e t, I s → G s e → M.step s e = some t → I t)
    (conclude : ∀ s e, I s → G s e → G' s e) (guarded : M.Guarded G s es) :
    M.Guarded G' s es := by
  induction es generalizing s with
  | nil => trivial
  | cons e es ih =>
      exact ⟨conclude s e start guarded.1,
        fun t ht => ih (step s e t start guarded.1 ht) (guarded.2 t ht)⟩

theorem Guarded.mono {G' : σ → ε → Prop} (h : M.Guarded G s es)
    (weaken : ∀ s e, G s e → G' s e) : M.Guarded G' s es := by
  induction es generalizing s with
  | nil => trivial
  | cons e es ih => exact ⟨weaken s e h.1, fun t ht => ih (h.2 t ht)⟩

theorem Guarded.and {G' : σ → ε → Prop} (h : M.Guarded G s es) (h' : M.Guarded G' s es) :
    M.Guarded (fun s e => G s e ∧ G' s e) s es := by
  induction es generalizing s with
  | nil => trivial
  | cons e es ih => exact ⟨⟨h.1, h'.1⟩, fun t ht => ih (h.2 t ht) (h'.2 t ht)⟩

theorem guarded_of_forall (h : ∀ s e, G s e) : M.Guarded G s es := by
  induction es generalizing s with
  | nil => trivial
  | cons e es ih => exact ⟨h s e, fun _ _ => ih⟩

/-- A condition on the events alone. -/
theorem guarded_of_mem {A : ε → Prop} (h : ∀ e ∈ es, A e) : M.Guarded (fun _ e => A e) s es := by
  induction es generalizing s with
  | nil => trivial
  | cons e es ih =>
      exact ⟨h e List.mem_cons_self, fun _ _ => ih fun e he => h e (List.mem_cons_of_mem _ he)⟩

/-- Two conditions on the steps that agree wherever an invariant holds, which the
steps that meet them keep, agree on runs. -/
theorem guarded_iff {G' : σ → ε → Prop} (start : I s)
    (step : ∀ s e t, I s → G s e → M.step s e = some t → I t)
    (agree : ∀ s e, I s → (G s e ↔ G' s e)) : M.Guarded G s es ↔ M.Guarded G' s es := by
  induction es generalizing s with
  | nil => exact Iff.rfl
  | cons e es ih =>
      constructor
      · intro h
        exact ⟨(agree s e start).mp h.1,
          fun t ht => (ih (step s e t start h.1 ht)).mp (h.2 t ht)⟩
      · intro h
        have hguard := (agree s e start).mpr h.1
        exact ⟨hguard, fun t ht => (ih (step s e t start hguard ht)).mpr (h.2 t ht)⟩

/-- Where every guarded step brings a machine nearer to its end, it has refused an event
after as many steps as that takes. `N n` says that it is `n` steps away at most. -/
theorem final_eq_none {N : Nat → σ → Prop} {n : Nat} (near : N n s)
    (atEnd : ∀ s e, N 0 s → G s e → M.step s e = none)
    (step : ∀ n s e t, N (n + 1) s → G s e → M.step s e = some t → N n t)
    (guarded : M.Guarded G s es) (long : n < es.length) : M.final s es = none := by
  induction es generalizing s n with
  | nil => exact absurd long (Nat.not_lt_zero n)
  | cons e es ih =>
      rw [final_cons]
      cases hstep : M.step s e with
      | none => rfl
      | some t =>
          cases n with
          | zero =>
              rw [atEnd s e near guarded.1] at hstep
              cases hstep
          | succ n =>
              exact ih (step n s e t near guarded.1 hstep) (guarded.2 t hstep)
                (Nat.lt_of_succ_lt_succ long)

/-- A finite run with a decidable condition can be checked by evaluation. -/
instance decidableGuarded [∀ s e, Decidable (G s e)] :
    ∀ s es, Decidable (M.Guarded G s es)
  | _, [] => isTrue trivial
  | s, e :: es =>
      match hstep : M.step s e with
      | none => decidable_of_iff (G s e) (by simp [hstep])
      | some t =>
          have := decidableGuarded t es
          decidable_of_iff (G s e ∧ M.Guarded G t es) (by simp [hstep])

instance decidableAlways [∀ s, Decidable (P s)] : ∀ s es, Decidable (M.Always P s es)
  | s, [] => inferInstanceAs (Decidable (P s))
  | s, e :: es =>
      match hstep : M.step s e with
      | none => decidable_of_iff (P s) (by simp [hstep])
      | some t =>
          have := decidableAlways t es
          decidable_of_iff (P s ∧ M.Always P t es) (by simp [hstep])

/-- When `G` tells exactly which steps keep `P`, in the states that satisfy the
unconditional invariant `I`, and holds of what is refused, it tells exactly which
runs satisfy `P` throughout. `V` restricts the runs to the events that the
environment can produce. -/
theorem always_iff_guarded_of_refused {V : σ → ε → Prop} (start : I s) (holds : P s)
    (invariant : ∀ s e t, I s → V s e → M.step s e = some t → I t)
    (exact_step : ∀ s e t, I s → P s → V s e → M.step s e = some t → (P t ↔ G s e))
    (refused : ∀ s e, V s e → M.step s e = none → G s e)
    (valid : M.Guarded V s es) : M.Always P s es ↔ M.Guarded G s es := by
  induction es generalizing s with
  | nil => exact ⟨fun _ => trivial, fun _ => holds⟩
  | cons e es ih =>
      obtain ⟨hv, hvalid⟩ := valid
      have hrest : ∀ t, M.step s e = some t → P t →
          (M.Always P t es ↔ M.Guarded G t es) := fun t ht hp =>
        ih (invariant s e t start hv ht) hp (hvalid t ht)
      constructor
      · rintro ⟨-, hnext⟩
        constructor
        · cases hstep : M.step s e with
          | none => exact refused s e hv hstep
          | some t => exact (exact_step s e t start holds hv hstep).mp (hnext t hstep).head
        · intro t ht
          exact (hrest t ht (hnext t ht).head).mp (hnext t ht)
      · rintro ⟨hg, hnext⟩
        refine ⟨holds, ?_⟩
        intro t ht
        have hp := (exact_step s e t start holds hv ht).mpr hg
        exact (hrest t ht hp).mpr (hnext t ht)

/-- The events of the environment are all accepted. -/
theorem always_iff_guarded {V : σ → ε → Prop} (start : I s) (holds : P s)
    (invariant : ∀ s e t, I s → V s e → M.step s e = some t → I t)
    (exact_step : ∀ s e t, I s → P s → V s e → M.step s e = some t → (P t ↔ G s e))
    (accepted : ∀ s e, V s e → ∃ t, M.step s e = some t)
    (valid : M.Guarded V s es) : M.Always P s es ↔ M.Guarded G s es :=
  always_iff_guarded_of_refused start holds invariant exact_step
    (fun s e hv hnone => by
      obtain ⟨t, ht⟩ := accepted s e hv
      rw [ht] at hnone
      cases hnone)
    valid

/-- Where every step can be followed by one of another machine, every run can be. -/
theorem final_simulated {τ δ : Type*} {N : Machine τ δ} {R : σ → τ → Prop} {E : ε → δ → Prop}
    {u : τ} (start : R s u)
    (step : ∀ s u e t, R s u → G s e → M.step s e = some t →
      ∃ d v, E e d ∧ N.step u d = some v ∧ R t v)
    (guarded : M.Guarded G s es) (run : M.final s es = some t) :
    ∃ ds v, List.Forall₂ E es ds ∧ N.final u ds = some v ∧ R t v := by
  induction es generalizing s u with
  | nil =>
      cases run
      exact ⟨[], u, .nil, rfl, start⟩
  | cons e es ih =>
      obtain ⟨middle, hstep, hrest⟩ := Option.bind_eq_some_iff.mp run
      obtain ⟨d, w, hd, hfollowed, hmiddle⟩ := step s u e middle start guarded.1 hstep
      obtain ⟨ds, v, hds, hrun, hlast⟩ := ih hmiddle (guarded.2 middle hstep) hrest
      refine ⟨d :: ds, v, .cons hd hds, ?_, hlast⟩
      rw [final_cons, hfollowed]
      exact hrun

/-- Two machines that answer every event which meets both guards alike, by corresponding states or
by none, answer a run alike. -/
theorem final_related {τ : Type*} {N : Machine τ ε} {R : σ → τ → Prop} {H : τ → ε → Prop} {u : τ}
    (start : R s u)
    (step : ∀ s u e, R s u → G s e → H u e → Option.Rel R (M.step s e) (N.step u e))
    (guarded : M.Guarded G s es) (guarded' : N.Guarded H u es) :
    Option.Rel R (M.final s es) (N.final u es) := by
  induction es generalizing s u with
  | nil => exact .some start
  | cons e es ih =>
      have hstep := step s u e start guarded.1 guarded'.1
      rw [final_cons, final_cons]
      cases hs : M.step s e <;> cases hu : N.step u e <;> rw [hs, hu] at hstep <;> cases hstep
      · exact .none
      next hnext => exact ih hnext (guarded.2 _ hs) (guarded'.2 _ hu)

/-! ## Logs -/

section Logged

variable {κ : Type*} {record : σ → ε → σ → κ → κ} {log : κ}

/-- The machine with a log of its steps. -/
def logged (M : Machine σ ε) (record : σ → ε → σ → κ → κ) : Machine (σ × κ) ε where
  step s e := (M.step s.1 e).map fun t => (t, record s.1 e t s.2)

theorem logged_step {s t : σ × κ} {e : ε} (h : (M.logged record).step s e = some t) :
    M.step s.1 e = some t.1 ∧ t.2 = record s.1 e t.1 s.2 := by
  obtain ⟨next, hnext, rfl⟩ := Option.map_eq_some_iff.mp h
  exact ⟨hnext, rfl⟩

/-- A log has no influence on the run. -/
theorem final_logged :
    ((M.logged record).final (s, log) es).map Prod.fst = M.final s es := by
  induction es generalizing s log with
  | nil => rfl
  | cons e es ih =>
      have hstep : (M.logged record).step (s, log) e =
          (M.step s e).map fun t => (t, record s e t log) := rfl
      rw [final_cons, final_cons, hstep]
      cases M.step s e with
      | none => rfl
      | some t => exact ih

end Logged

end Machine
