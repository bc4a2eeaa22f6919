import Coping.Ping.Addresses

/-!
# Trying IPv6 addresses

`rts->firsthop` survives a failed attempt. Once it is a real address, every later call
of `ping6_run` connects to it again, whatever result it is called for. A link-local address
that comes first is not connected to at all, as the family of `rts->firsthop` is not set for
it. `OwnHops` says when that makes no difference.
-/

namespace Coping.FirstHop

variable {device : Option UInt32} {connect : SockaddrIn6 → Int} {s : Firsthop}
variable {ai : SockaddrIn6} {rest : List SockaddrIn6}

/-- What trying one result after the other is for. -/
structure Tries (device : Option UInt32) (connect : SockaddrIn6 → Int)
    (results : List SockaddrIn6) (tried : Tried) : Prop where
  /-- Every attempt is about its own result. -/
  own : ∀ attempt ∈ tried.attempts, attempt.2 = some (onDevice device attempt.1)
  /-- The first one that can be reached is taken. -/
  chosen : tried.chosen = results.find? fun ai => connect (onDevice device ai) = 0

/-- An address of one link. -/
def LinkLocal (a : BitVec 128) : Prop :=
  in6IsAddrLinklocal a = true ∨ in6IsAddrMcLinklocal a = true

/-- From the first result that is not `::` on, no result is needed or all are the same
address; it is not link-local if it is the first of all. Before that the scopes do not
clash. -/
def OwnHops (device : Option UInt32) (connect : SockaddrIn6 → Int) :
    SaFamily → UInt32 → List SockaddrIn6 → Prop
  | _, _, [] => True
  | family, scopeId, ai :: rest =>
      ¬(ai.sin6ScopeId ≠ 0 ∧ scopeId ≠ 0 ∧ ai.sin6ScopeId ≠ scopeId) ∧
        (family = .inet6 ∨ ¬LinkLocal ai.sin6Addr) ∧
        (connect (onDevice device ai) = 0 ∨
          if ai.sin6Addr = 0 then
            OwnHops device connect .inet6 (if scopeId = 0 then ai.sin6ScopeId else scopeId) rest
          else ∀ other ∈ rest, onDevice device other = onDevice device ai)

/-! ## One attempt -/

theorem onDevice_addr (device : Option UInt32) (a : SockaddrIn6) :
    (onDevice device a).sin6Addr = a.sin6Addr := by
  cases device with
  | none => rfl
  | some iface =>
      rw [onDevice]
      split <;> rfl

theorem onDevice_onDevice (device : Option UInt32) (a : SockaddrIn6) :
    onDevice device (onDevice device a) = onDevice device a := by
  cases device with
  | none => rfl
  | some iface =>
      simp only [onDevice]
      split <;> simp_all

theorem setFamily_linkLocal (s : Firsthop) (link : LinkLocal s.firsthop.sin6Addr) :
    setFamily s = s :=
  if_neg fun h => link.elim h.1 h.2

theorem setFamily_other (s : Firsthop) (other : ¬LinkLocal s.firsthop.sin6Addr) :
    setFamily s = { s with sin6Family := .inet6 } := if_pos (not_or.mp other)

/-- The probe socket is connected to the first hop. -/
theorem ping6Probe_connects (device : Option UInt32) (connect : SockaddrIn6 → Int)
    {filled : Firsthop} (fill : fillFirsthop s ai = some filled)
    (family : filled.sin6Family = .inet6 ∨ ¬LinkLocal filled.firsthop.sin6Addr) (aiNext : Bool) :
    ping6Probe device connect s ai aiNext =
      { connected := some (onDevice device filled.firsthop)
        result :=
          if connect (onDevice device filled.firsthop) = 0 then .proceeds ()
          else if isUnreachable (connect (onDevice device filled.firsthop)) ∧ aiNext then
            .next { filled with
              firsthop := onDevice device filled.firsthop
              sin6Family := .inet6 }
          else .exits } := by
  have haddr := onDevice_addr device filled.firsthop
  have hset : setFamily { filled with firsthop := onDevice device filled.firsthop } =
      { filled with firsthop := onDevice device filled.firsthop, sin6Family := .inet6 } := by
    rcases family with hfamily | hother
    · by_cases hlink : LinkLocal (onDevice device filled.firsthop).sin6Addr
      · rw [setFamily_linkLocal { filled with firsthop := onDevice device filled.firsthop } hlink,
          hfamily]
      · exact setFamily_other { filled with firsthop := onDevice device filled.firsthop } hlink
    · rw [← haddr] at hother
      exact setFamily_other { filled with firsthop := onDevice device filled.firsthop } hother
  simp only [ping6Probe, fill, hset]

/-- A link-local address that comes first is not connected to. -/
theorem ping6Probe_unspec (device : Option UInt32) (connect : SockaddrIn6 → Int)
    {filled : Firsthop} (fill : fillFirsthop s ai = some filled)
    (family : filled.sin6Family = .unspec) (link : LinkLocal filled.firsthop.sin6Addr)
    (aiNext : Bool) :
    ping6Probe device connect s ai aiNext = { connected := none, result := .proceeds () } := by
  have hset : setFamily { filled with firsthop := onDevice device filled.firsthop } =
      { filled with firsthop := onDevice device filled.firsthop } := by
    rw [← onDevice_addr device filled.firsthop] at link
    exact setFamily_linkLocal { filled with firsthop := onDevice device filled.firsthop } link
  simp only [ping6Probe, fill, hset]
  rw [family]

/-- An unspecified first hop is replaced by the destination. -/
theorem fillFirsthop_unset (unset : s.firsthop.sin6Addr = 0)
    (scopes : ¬(ai.sin6ScopeId ≠ 0 ∧ s.scopeId ≠ 0 ∧ ai.sin6ScopeId ≠ s.scopeId)) :
    fillFirsthop s ai = some { s with
      firsthop := ai
      scopeId := if s.scopeId = 0 then ai.sin6ScopeId else s.scopeId } := by
  rw [fillFirsthop, if_pos unset, if_neg scopes]

theorem fillFirsthop_set (ai : SockaddrIn6) (set : s.firsthop.sin6Addr ≠ 0) :
    fillFirsthop s ai = some s := by
  rw [fillFirsthop, if_neg set]

/-! ## The loop -/

/-- With an unreachable first hop, every attempt goes there and fails. -/
theorem main6_stuck (set : s.firsthop.sin6Addr ≠ 0) (home : onDevice device s.firsthop = s.firsthop)
    (family : s.sin6Family = .inet6) (unreachable : isUnreachable (connect s.firsthop) = true)
    (results : List SockaddrIn6) :
    main6 device connect s results =
      { attempts := results.map fun ai => (ai, some s.firsthop), chosen := none } := by
  have hfails : connect s.firsthop ≠ 0 := by
    intro hzero
    rw [hzero] at unreachable
    exact absurd unreachable (by decide)
  induction results with
  | nil => rfl
  | cons ai rest ih =>
      have hattempt := ping6Probe_connects device connect (fillFirsthop_set ai set)
        (.inl family) (!rest.isEmpty)
      have hkept : { s with firsthop := s.firsthop, sin6Family := .inet6 } = s := by rw [← family]
      rw [home, if_neg hfails, hkept] at hattempt
      rw [main6, hattempt]
      cases rest with
      | nil =>
          rw [if_neg (by simp)]
          rfl
      | cons next rest =>
          rw [if_pos (by simp [unreachable])]
          dsimp only
          rw [ih]
          rfl

theorem tries_stuck_iff (set : ai.sin6Addr ≠ 0)
    (unreachable : isUnreachable (connect (onDevice device ai)) = true) (scopeId : UInt32) :
    Tries device connect rest (main6 device connect ⟨onDevice device ai, .inet6, scopeId⟩ rest) ↔
      ∀ other ∈ rest, onDevice device other = onDevice device ai := by
  have hset : (onDevice device ai).sin6Addr ≠ 0 := by
    rw [onDevice_addr]
    exact set
  rw [main6_stuck (s := ⟨onDevice device ai, .inet6, scopeId⟩) hset (onDevice_onDevice device ai)
    rfl unreachable rest]
  constructor
  · intro h other hmem
    have hown := h.own (other, some (onDevice device ai)) (List.mem_map_of_mem hmem)
    exact (Option.some.inj hown).symm
  · intro hsame
    refine ⟨?_, ?_⟩
    · intro attempt hattempt
      obtain ⟨other, hmem, rfl⟩ := List.mem_map.mp hattempt
      exact congrArg some (hsame other hmem).symm
    · symm
      apply List.find?_eq_none.mpr
      intro other hmem hzero
      rw [← hsame other hmem, of_decide_eq_true hzero] at unreachable
      exact absurd unreachable (by decide)

/-- Another attempt changes nothing about those before it. -/
theorem tries_cons_iff (fails : connect (onDevice device ai) ≠ 0) (tried : Tried) :
    Tries device connect (ai :: rest)
        { tried with attempts := (ai, some (onDevice device ai)) :: tried.attempts } ↔
      Tries device connect rest tried := by
  have hfind : (ai :: rest).find? (fun ai => connect (onDevice device ai) = 0) =
      rest.find? fun ai => connect (onDevice device ai) = 0 := by
    rw [List.find?_cons_of_neg (by simpa using fails)]
  constructor
  · intro h
    exact ⟨fun attempt hmem => h.own attempt (List.mem_cons_of_mem _ hmem),
      h.chosen.trans hfind⟩
  · intro h
    exact ⟨List.forall_mem_cons.mpr ⟨rfl, h.own⟩, h.chosen.trans hfind.symm⟩

/-- As long as the first hop is unspecified, each result gets its own attempt. -/
theorem tries_iff (answers : ∀ a, connect a = 0 ∨ isUnreachable (connect a) = true)
    (unset : s.firsthop.sin6Addr = 0) (results : List SockaddrIn6) :
    Tries device connect results (main6 device connect s results) ↔
      OwnHops device connect s.sin6Family s.scopeId results := by
  induction results generalizing s with
  | nil => exact ⟨fun _ => trivial, fun _ => ⟨List.forall_mem_nil _, rfl⟩⟩
  | cons ai rest ih =>
      rw [main6, OwnHops]
      by_cases hscopes : ai.sin6ScopeId ≠ 0 ∧ s.scopeId ≠ 0 ∧ ai.sin6ScopeId ≠ s.scopeId
      · have hattempt : ping6Probe device connect s ai (!rest.isEmpty) = ⟨none, .exits⟩ := by
          rw [ping6Probe, fillFirsthop, if_pos unset, if_pos hscopes]
        rw [hattempt]
        constructor
        · intro h
          cases h.own (ai, none) List.mem_cons_self
        · intro h
          exact absurd hscopes h.1
      have hfill := fillFirsthop_unset unset hscopes
      by_cases hfamily : s.sin6Family = .inet6 ∨ ¬LinkLocal ai.sin6Addr
      case neg =>
        obtain ⟨hunspec, hlink⟩ := not_or.mp hfamily
        have hattempt := ping6Probe_unspec device connect hfill
          (by cases hs : s.sin6Family <;> simp_all) (not_not.mp hlink) (!rest.isEmpty)
        rw [hattempt]
        constructor
        · intro h
          cases h.own (ai, none) List.mem_cons_self
        · intro h
          exact absurd h.2.1 hfamily
      have hattempt := ping6Probe_connects device connect hfill hfamily (!rest.isEmpty)
      rw [hattempt, and_iff_right hscopes, and_iff_right hfamily]
      dsimp only
      by_cases hzero : connect (onDevice device ai) = 0
      · rw [if_pos hzero]
        constructor
        · intro _
          exact .inl hzero
        · intro _
          refine ⟨List.forall_mem_singleton.mpr rfl, ?_⟩
          rw [List.find?_cons_of_pos (by simpa using hzero)]
      have hunreachable := (answers (onDevice device ai)).resolve_left hzero
      rw [if_neg hzero, or_iff_right hzero]
      cases rest with
      | nil =>
          rw [if_neg (by simp)]
          constructor
          · intro _
            split
            · trivial
            · exact List.forall_mem_nil _
          · intro _
            refine ⟨List.forall_mem_singleton.mpr rfl, ?_⟩
            rw [List.find?_cons_of_neg (by simpa using hzero)]
            rfl
      | cons next rest =>
          rw [if_pos (by simp [hunreachable])]
          dsimp only
          rw [tries_cons_iff hzero]
          by_cases hunset : ai.sin6Addr = 0
          · rw [if_pos hunset]
            exact ih ((onDevice_addr device ai).trans hunset)
          · rw [if_neg hunset]
            exact tries_stuck_iff hunset hunreachable _

/-- Each IPv6 attempt is about its own result, and the first reachable one is taken,
exactly when the first result can be reached or the others are the same address, and it is
not a link-local one. -/
theorem retries_work_iff (device : Option UInt32) (connect : SockaddrIn6 → Int)
    (answers : ∀ a, connect a = 0 ∨ isUnreachable (connect a) = true)
    (results : List SockaddrIn6) :
    Tries device connect results (main6 device connect {} results) ↔
      OwnHops device connect .unspec 0 results :=
  tries_iff answers rfl results

/-- A kernel with one route. -/
def oneRoute (a : SockaddrIn6) : Int := if a.sin6Addr = 2 then 0 else ENETUNREACH

theorem oneRoute_answers (a : SockaddrIn6) :
    oneRoute a = 0 ∨ isUnreachable (oneRoute a) = true := by
  rw [oneRoute]
  split
  · exact .inl rfl
  · exact .inr rfl

theorem retries_work_iff_reachable :
    Tries none oneRoute [⟨2, 0⟩, ⟨1, 0⟩] (main6 none oneRoute {} [⟨2, 0⟩, ⟨1, 0⟩]) ↔
      OwnHops none oneRoute .unspec 0 [⟨2, 0⟩, ⟨1, 0⟩] :=
  retries_work_iff none oneRoute oneRoute_answers _

/-- Only the second of two addresses has a route, and it is never tried. -/
theorem retries_fail_on_second :
    ¬Tries none oneRoute [⟨1, 0⟩, ⟨2, 0⟩] (main6 none oneRoute {} [⟨1, 0⟩, ⟨2, 0⟩]) := by
  intro h
  exact absurd h.chosen (by decide)

end Coping.FirstHop
