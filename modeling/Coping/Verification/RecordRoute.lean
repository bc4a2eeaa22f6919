import Coping.Verification.OptionReads

/-!
# Routes that are recognised

A recorded route is compared with the last one that was printed from the pointer octet on. The
comparison so takes in the pointer, and leaves out the last byte of the route, or the last two
where the option is full. A run of replies says of no other route that it is the same one if and
only if no route of the run differs from the printed one in these bytes alone.
-/

namespace Coping.RecordRoute

open OptionWalk

/-- The options of a reply, in a memory that goes on behind them. -/
structure OptionArea where
  cp : Nat → UInt8
  totlen : Nat

/-- The option that an area has at an offset, taken as a record route. -/
structure Route where
  length : UInt8
  pointer : UInt8
  /-- The bytes before the pointer, as far as they are in the option. -/
  recorded : List UInt8

/-- The last byte that is compared, counted from the pointer on. -/
def Route.filled (r : Route) : Nat := filledBytes IPOPT_MINOFF.toNat r.length r.pointer

/-- What is compared, and what is kept in `old_rr`. -/
def Route.compared (r : Route) : List UInt8 := (r.pointer :: r.recorded).take r.filled

def routeAt (cp : Nat → UInt8) (start : Nat) : Route where
  length := cp (start + 1)
  pointer := cp (start + 2)
  recorded := memory cp (start + 3)
    (min ((cp (start + 2)).toNat - 4) ((cp (start + 1)).toNat - 3))

/-- A record route with an address in it. -/
def routeOption (cp : Nat → UInt8) (start : Nat) : List Route :=
  if cp start = IPOPT_RR ∧ (routeAt cp start).filled ≠ 0 then [routeAt cp start] else []

/-- The record routes of an area, by the lengths of its options. -/
def recordRoutes (cp : Nat → UInt8) (optptr totlen : Nat) : List Route :=
  if totlen = 0 ∨ cp optptr = IPOPT_EOL then []
  else if cp optptr = IPOPT_NOP then recordRoutes cp (optptr + 1) (totlen - 1)
  else if (cp (optptr + 1)).toNat < 2 ∨ (cp (optptr + 1)).toNat > totlen then []
  else
    routeOption cp optptr ++
      recordRoutes cp (optptr + (cp (optptr + 1)).toNat) (totlen - (cp (optptr + 1)).toNat)
termination_by totlen

/-- What is said of a route. -/
inductive Verdict where
  | same
  | printed

/-- What the walk says of the route at an offset. -/
def verdict (cp : Nat → UInt8) (option : ShownOption) : List (Route × Verdict) :=
  match option.shown with
  | .sameRoute => [(routeAt cp option.offset, .same)]
  | .route _ => [(routeAt cp option.offset, .printed)]
  | _ => []

/-- The replies of a run, one after the other. The static variables keep the old route. -/
def walkReplies : List OptionArea → List UInt8 → Option (List (Route × Verdict))
  | [], _ => some []
  | area :: areas, oldRr => do
      let walk ← walkOptions (fun i => some (area.cp i)) false 0 area.totlen oldRr
      let rest ← walkReplies areas walk.2
      return walk.1.flatMap (verdict area.cp) ++ rest

/-- A route is called the same only where it is the last one that was printed. -/
def Honest : Option (List UInt8) → List (Route × Verdict) → Prop
  | _, [] => True
  | last, (r, .same) :: rest => last = some r.recorded ∧ Honest last rest
  | _, (r, .printed) :: rest => Honest (some r.recorded) rest

/-- The run goes on, and it is honest. -/
def SameRoutes (areas : List OptionArea) : Prop :=
  ∃ verdicts, walkReplies areas [] = some verdicts ∧ Honest none verdicts

/-- No route differs from the last one before it that is compared as another in the bytes alone
that are not compared. -/
def Telling : Option Route → List Route → Prop
  | _, [] => True
  | none, r :: rest => Telling (some r) rest
  | some last, r :: rest =>
      (r.compared = last.compared → r.recorded = last.recorded) ∧
        Telling (some (if r.compared = last.compared then last else r)) rest

/-- All of the record routes of a run. -/
def runRoutes (areas : List OptionArea) : List Route :=
  areas.flatMap fun area => recordRoutes area.cp 0 area.totlen

section Routes

variable {cp : Nat → UInt8} {start n m : Nat} {r : Route} {routes : List Route}
variable {oldRr : List UInt8}

/-- The bytes that are compared are the pointer and the route behind it. -/
theorem compared_routeAt (cp : Nat → UInt8) (start : Nat) :
    memory cp (start + 2) (routeAt cp start).filled = (routeAt cp start).compared := by
  have hle : (routeAt cp start).filled ≤
      min ((cp (start + 2)).toNat - 4) ((cp (start + 1)).toNat - 3) + 1 := by
    change min (cp (start + 2)).toNat (cp (start + 1)).toNat - 4 ≤ _
    omega
  rw [Route.compared]
  change _ = (cp (start + 2) :: memory cp (start + 3) _).take _
  rw [← memory_succ, memory_take _ hle]

theorem length_compared_routeAt (cp : Nat → UInt8) (start : Nat) :
    (routeAt cp start).compared.length = (routeAt cp start).filled := by
  rw [← compared_routeAt, length_memory]

end Routes

/-! ## The walk over a memory -/

/-- What is said of routes, and the route that is kept after them. -/
def replay : List UInt8 → List Route → Option (List (Route × Verdict) × List UInt8)
  | oldRr, [] => some ([], oldRr)
  | oldRr, r :: rest =>
      if r.compared = oldRr then
        (replay oldRr rest).map fun later => ((r, .same) :: later.1, later.2)
      else if r.filled ≤ MAX_IPOPTLEN then
        (replay r.compared rest).map fun later => ((r, .printed) :: later.1, later.2)
      else none

theorem replay_append : ∀ (front back : List Route) (oldRr : List UInt8),
    replay oldRr (front ++ back) = (replay oldRr front).bind fun first =>
      (replay first.2 back).map fun later => (first.1 ++ later.1, later.2)
  | [], back, oldRr => by
      rw [List.nil_append, replay, Option.bind_some]
      cases replay oldRr back <;> rfl
  | r :: front, back, oldRr => by
      rw [List.cons_append, replay, replay]
      split
      · rw [replay_append front back oldRr]
        cases replay oldRr front with
        | none => rfl
        | some first =>
            rw [Option.bind_some, Option.map_map, Option.map_some, Option.bind_some]
            rfl
      · split
        · rw [replay_append front back r.compared]
          cases replay r.compared front with
          | none => rfl
          | some first =>
              rw [Option.bind_some, Option.map_map, Option.map_some, Option.bind_some]
              rfl
        · rfl

section Walk

variable {cp : Nat → UInt8} {start n left optptr totlen : Nat} {oldRr : List UInt8}

/-- Every byte can be read. -/
def whole (cp : Nat → UInt8) : ReadByte := fun i => some (cp i)

theorem readable_whole : Readable (whole cp) start n := fun _ _ => rfl

theorem readBytes_whole (cp : Nat → UInt8) (start n : Nat) :
    readBytes (whole cp) start n = some (memory cp start n) := by
  obtain ⟨bytes, hbytes⟩ := Option.isSome_iff_exists.mp
    (readBytes_isSome_iff.mpr (@readable_whole cp start n))
  have hagrees : Agrees (whole cp) cp := fun _ _ h => Option.some.inj h
  rw [hbytes, ← readBytes_memory hagrees hbytes]

theorem sameRoute_whole (cp : Nat → UInt8) (start n : Nat) (oldRr : List UInt8) :
    sameRoute (whole cp) start n oldRr = some (decide (memory cp start n = oldRr)) := by
  rw [sameRoute]
  by_cases hlength : n = oldRr.length
  · rw [if_pos hlength, readBytes_whole, Option.map_some]
  · rw [if_neg hlength, decide_eq_false]
    rintro rfl
    exact hlength (length_memory cp start n).symm

/-- What a record route adds to the run. -/
theorem walkRecordRoute_replay (olen : Nat) (type : cp start = IPOPT_RR) :
    (walkRecordRoute (whole cp) false start oldRr).map
        (fun walk => (verdict cp ⟨start, olen, walk.1⟩, walk.2)) =
      replay oldRr (routeOption cp start) := by
  rw [walkRecordRoute]
  change (if (routeAt cp start).filled = 0 then _ else _ : Option _).map _ = _
  by_cases hnone : (routeAt cp start).filled = 0
  · have hroute : routeOption cp start = [] := if_neg fun hboth => hboth.2 hnone
    rw [if_pos hnone, hroute]
    rfl
  have hroute : routeOption cp start = [routeAt cp start] := if_pos ⟨type, hnone⟩
  have hsame := sameRoute_whole cp (start + 2) (routeAt cp start).filled oldRr
  rw [compared_routeAt] at hsame
  rw [if_neg hnone, hroute, replay, replay, replay]
  change (Option.bind (sameRoute (whole cp) (start + 2) (routeAt cp start).filled oldRr) _).map _ =
    _
  rw [hsame, Option.bind_some]
  by_cases hequal : (routeAt cp start).compared = oldRr
  · rw [if_pos hequal, if_pos ⟨decide_eq_true hequal, Bool.false_ne_true⟩]
    rfl
  rw [if_neg hequal, if_neg fun hboth => hequal (of_decide_eq_true hboth.1)]
  change (if (routeAt cp start).filled ≤ MAX_IPOPTLEN then _ else _ : Option _).map _ = _
  by_cases hroom : (routeAt cp start).filled ≤ MAX_IPOPTLEN
  · have hpositive : 0 < (routeAt cp start).filled := Nat.pos_of_ne_zero hnone
    obtain ⟨addresses, haddresses⟩ := walkRoute_of_readable hpositive
      (@readable_whole cp (start + 3) (wordBytes (routeAt cp start).filled))
    have hbytes := readBytes_whole cp (start + 2) (routeAt cp start).filled
    rw [compared_routeAt] at hbytes
    rw [if_pos hroom, if_pos hroom]
    change ((readBytes (whole cp) (start + 2) (routeAt cp start).filled).bind fun route =>
      (walkRoute (whole cp) (start + 3) (routeAt cp start).filled).bind fun addresses =>
        some (Shown.route addresses, route)).map _ = _
    rw [hbytes, haddresses]
    rfl
  · rw [if_neg hroom, if_neg hroom]
    rfl

theorem walkSourceRoute_whole (cp : Nat → UInt8) (strict : Bool) (start : Nat) :
    ∃ addresses,
      walkSourceRoute (whole cp) strict start = some (.sourceRoute strict addresses) := by
  rw [walkSourceRoute]
  change ∃ addresses, (if (cp (start + 1)).toNat > IPOPT_MINOFF.toNat then _ else _) = _
  by_cases hroute : (cp (start + 1)).toNat > IPOPT_MINOFF.toNat
  · obtain ⟨addresses, haddresses⟩ := walkRoute_of_readable (Nat.sub_pos_of_lt hroute)
      (@readable_whole cp (start + 2) _)
    rw [if_pos hroute, haddresses]
    exact ⟨addresses, rfl⟩
  · rw [if_neg hroute]
    exact ⟨[], rfl⟩

/-- There is no route among times. -/
theorem walkTimestamp_whole (cp : Nat → UInt8) (start olen : Nat) :
    ∃ shown, walkTimestamp (whole cp) start = some shown ∧
      verdict cp ⟨start, olen, shown⟩ = [] := by
  rw [walkTimestamp]
  change ∃ shown, (if filledBytes 5 (cp (start + 1)) (cp (start + 2)) = 0 then _ else _) = _ ∧ _
  by_cases hnone : filledBytes 5 (cp (start + 1)) (cp (start + 2)) = 0
  · rw [if_pos hnone]
    exact ⟨.nothing, rfl, rfl⟩
  · obtain ⟨stamps, hstamps⟩ := @walkTimes_of_readable (whole cp)
      (cp (start + 3) &&& 0xf ≠ IPOPT_TS_TSONLY) _ (start + 4) 0 0 (Nat.pos_of_ne_zero hnone)
      readable_whole
    rw [if_neg hnone]
    change ∃ shown, (walkTimes (whole cp) (cp (start + 3) &&& 0xf ≠ IPOPT_TS_TSONLY) (start + 4) _
      0 0).bind _ = _ ∧ _
    rw [hstamps]
    exact ⟨_, rfl, rfl⟩

/-- What an option adds to the run. -/
theorem walkOption_replay (cp : Nat → UInt8) (start olen : Nat) (oldRr : List UInt8) :
    (walkOption (whole cp) false start oldRr).map
        (fun walk => (verdict cp ⟨start, olen, walk.1⟩, walk.2)) =
      replay oldRr (routeOption cp start) := by
  by_cases hrecord : cp start = IPOPT_RR
  · have hsource : ¬(cp start = IPOPT_SSRR ∨ cp start = IPOPT_LSRR) := by
      rw [hrecord]
      decide
    rw [← walkRecordRoute_replay olen hrecord, walkOption]
    change (if _ then _ else if _ then _ else _ : Option _).map _ = _
    rw [if_neg hsource, if_pos hrecord]
  have hroute : routeOption cp start = [] := if_neg fun hboth => hrecord hboth.1
  rw [hroute, replay, walkOption]
  change (if _ then _ else if _ then _ else if _ then _ else _ : Option _).map _ = _
  by_cases hsource : cp start = IPOPT_SSRR ∨ cp start = IPOPT_LSRR
  · obtain ⟨addresses, haddresses⟩ := walkSourceRoute_whole cp (cp start = IPOPT_SSRR) start
    rw [if_pos hsource, haddresses]
    rfl
  rw [if_neg hsource, if_neg hrecord]
  by_cases htimes : cp start = IPOPT_TS
  · obtain ⟨shown, hshown, hverdict⟩ := walkTimestamp_whole cp start olen
    rw [if_pos htimes, hshown]
    change some (verdict cp ⟨start, olen, shown⟩, oldRr) = _
    rw [hverdict]
  · rw [if_neg htimes]
    rfl

/-- What the options of a reply add to the run. -/
theorem walkOptions_replay (cp : Nat → UInt8) : ∀ (totlen optptr : Nat) (oldRr : List UInt8),
    (walkOptions (whole cp) false optptr totlen oldRr).map
        (fun walk => (walk.1.flatMap (verdict cp), walk.2)) =
      replay oldRr (recordRoutes cp optptr totlen) := by
  intro totlen optptr oldRr
  rw [walkOptions, recordRoutes]
  by_cases hend : totlen = 0
  · rw [if_pos hend, if_pos (.inl hend)]
    rfl
  rw [if_neg hend]
  change (if cp optptr = IPOPT_EOL then _ else if cp optptr = IPOPT_NOP then _ else _ :
    Option _).map _ = _
  by_cases heol : cp optptr = IPOPT_EOL
  · rw [if_pos heol, if_pos (.inr heol)]
    rfl
  have hmore : ¬(totlen = 0 ∨ cp optptr = IPOPT_EOL) := fun hstop => hstop.elim hend heol
  rw [if_neg heol, if_neg hmore]
  by_cases hnop : cp optptr = IPOPT_NOP
  · rw [if_pos hnop, if_pos hnop, ← walkOptions_replay cp (totlen - 1) (optptr + 1) oldRr]
    cases walkOptions (whole cp) false (optptr + 1) (totlen - 1) oldRr <;> rfl
  rw [if_neg hnop, if_neg hnop]
  change (if (cp (optptr + 1)).toNat < 2 ∨ (cp (optptr + 1)).toNat > totlen then _ else _ :
    Option _).map _ = _
  by_cases hbreak : (cp (optptr + 1)).toNat < 2 ∨ (cp (optptr + 1)).toNat > totlen
  · rw [if_pos hbreak, if_pos hbreak]
    rfl
  rw [if_neg hbreak, if_neg hbreak, replay_append,
    ← walkOption_replay cp optptr (cp (optptr + 1)).toNat oldRr]
  cases hoption : walkOption (whole cp) false optptr oldRr with
  | none => rfl
  | some option =>
      have hrest := walkOptions_replay cp (totlen - (cp (optptr + 1)).toNat)
        (optptr + (cp (optptr + 1)).toNat) option.2
      rw [Option.map_some, Option.bind_some, ← hrest, Option.bind_eq_bind, Option.bind_some]
      cases walkOptions (whole cp) false (optptr + (cp (optptr + 1)).toNat)
        (totlen - (cp (optptr + 1)).toNat) option.2 <;> rfl
termination_by totlen => totlen

/-- A run is a run over its record routes. -/
theorem walkReplies_eq : ∀ (areas : List OptionArea) (oldRr : List UInt8),
    walkReplies areas oldRr = (replay oldRr (runRoutes areas)).map Prod.fst
  | [], oldRr => rfl
  | area :: areas, oldRr => by
      rw [walkReplies, runRoutes, List.flatMap_cons, replay_append, ← walkOptions_replay]
      change ((walkOptions (whole area.cp) false 0 area.totlen oldRr).bind _) = _
      cases walkOptions (whole area.cp) false 0 area.totlen oldRr with
      | none => rfl
      | some walk =>
          rw [Option.bind_some, walkReplies_eq areas walk.2, Option.map_some, Option.bind_some]
          change _ = ((replay walk.2 (runRoutes areas)).map _).map _
          cases replay walk.2 (runRoutes areas) <;> rfl

end Walk

/-! ## The runs -/

section Run

variable {areas : List OptionArea} {routes : List Route} {r : Route} {oldRr : List UInt8}

/-- The bytes that are compared are as many as the pointer says, and there are some. -/
def Whole (r : Route) : Prop := r.compared.length = r.filled ∧ r.filled ≠ 0

theorem whole_routeOption {cp : Nat → UInt8} {start : Nat} (mem : r ∈ routeOption cp start) :
    Whole r := by
  rw [routeOption] at mem
  split at mem
  next hroute =>
    rw [List.mem_singleton.mp mem]
    exact ⟨length_compared_routeAt cp start, hroute.2⟩
  next => cases mem

theorem whole_recordRoutes (cp : Nat → UInt8) : ∀ {totlen optptr : Nat},
    ∀ r ∈ recordRoutes cp optptr totlen, Whole r := by
  intro totlen optptr r mem
  rw [recordRoutes] at mem
  split at mem
  next => cases mem
  split at mem
  next hmore hnop =>
    have hpositive : totlen ≠ 0 := fun hzero => hmore (.inl hzero)
    exact whole_recordRoutes cp r mem
  split at mem
  next => cases mem
  next hlength =>
    obtain mem | mem := List.mem_append.mp mem
    · exact whole_routeOption mem
    · exact whole_recordRoutes cp r mem
termination_by totlen => totlen

/-- What is kept of the last route that was printed. -/
def kept (last : Option Route) : List UInt8 := (last.map Route.compared).getD []

theorem verdicts_same (same : r.compared = oldRr) :
    (replay oldRr (r :: routes)).map Prod.fst =
      ((replay oldRr routes).map Prod.fst).map ((r, .same) :: ·) := by
  rw [replay, if_pos same, Option.map_map, Option.map_map]
  rfl

theorem verdicts_printed (other : r.compared ≠ oldRr) (room : r.filled ≤ MAX_IPOPTLEN) :
    (replay oldRr (r :: routes)).map Prod.fst =
      ((replay r.compared routes).map Prod.fst).map ((r, .printed) :: ·) := by
  rw [replay, if_neg other, if_pos room, Option.map_map, Option.map_map]
  rfl

theorem exists_map_cons {α : Type} {x : Option (List α)} {a : α} {P : List α → Prop} :
    (∃ all, x.map (a :: ·) = some all ∧ P all) ↔ ∃ rest, x = some rest ∧ P (a :: rest) := by
  constructor
  · rintro ⟨all, hall, hp⟩
    obtain ⟨rest, hrest, rfl⟩ := Option.map_eq_some_iff.mp hall
    exact ⟨rest, hrest, hp⟩
  · rintro ⟨rest, hrest, hp⟩
    exact ⟨a :: rest, by rw [hrest, Option.map_some], hp⟩

/-- A route that is compared as another is printed, and the next ones are compared with it. -/
theorem telling_printed {last : Option Route} (other : r.compared ≠ kept last) :
    Telling last (r :: routes) ↔ Telling (some r) routes := by
  cases last with
  | none => rfl
  | some l =>
      have hother : r.compared ≠ l.compared := other
      rw [Telling, if_neg hother]
      exact and_iff_right fun hsame => absurd hsame hother

/-- The run is honest as long as the routes tell. -/
theorem replay_honest_iff : ∀ {routes : List Route} {last : Option Route},
    (∀ r ∈ routes, Whole r) → (kept last).length ≤ MAX_IPOPTLEN →
    ((∃ verdicts, (replay (kept last) routes).map Prod.fst = some verdicts ∧
        Honest (last.map Route.recorded) verdicts) ↔
      (∀ r ∈ routes, r.filled ≤ MAX_IPOPTLEN) ∧ Telling last routes)
  | [], last, _, _ => by
      constructor
      · intro _
        refine ⟨fun r mem => (nomatch mem), ?_⟩
        cases last <;> trivial
      · intro _
        exact ⟨[], rfl, trivial⟩
  | r :: routes, last, whole, short => by
      obtain ⟨hlength, hpositive⟩ := whole r List.mem_cons_self
      have hwhole : ∀ r ∈ routes, Whole r := fun r mem => whole r (List.mem_cons_of_mem _ mem)
      rw [List.forall_mem_cons]
      by_cases hsame : r.compared = kept last
      · have hroom : r.filled ≤ MAX_IPOPTLEN := by
          rw [← hlength, hsame]
          exact short
        obtain ⟨l, rfl⟩ : ∃ l, last = some l := by
          cases last with
          | none =>
              rw [hsame] at hlength
              exact absurd hlength.symm hpositive
          | some l => exact ⟨l, rfl⟩
        have hequal : r.compared = l.compared := hsame
        have hrest := @replay_honest_iff routes (some l) hwhole short
        rw [verdicts_same hsame, exists_map_cons, Telling, if_pos hequal]
        constructor
        · rintro ⟨rest, hreplay, hrecorded, hhonest⟩
          obtain ⟨hrooms, htelling⟩ := hrest.mp ⟨rest, hreplay, hhonest⟩
          exact ⟨⟨hroom, hrooms⟩, fun _ => (Option.some.inj hrecorded).symm, htelling⟩
        · rintro ⟨⟨-, hrooms⟩, hrecorded, htelling⟩
          obtain ⟨rest, hreplay, hhonest⟩ := hrest.mpr ⟨hrooms, htelling⟩
          exact ⟨rest, hreplay, congrArg some (hrecorded hequal).symm, hhonest⟩
      · rw [telling_printed hsame]
        by_cases hroom : r.filled ≤ MAX_IPOPTLEN
        · have hrest := @replay_honest_iff routes (some r) hwhole (hlength.trans_le hroom)
          rw [verdicts_printed hsame hroom, exists_map_cons, and_iff_right hroom]
          exact hrest
        · rw [replay, if_neg hsame, if_neg hroom, Option.map_none]
          constructor
          · rintro ⟨verdicts, hnone, -⟩
            cases hnone
          · rintro ⟨⟨hle, -⟩, -⟩
            exact absurd hle hroom

end Run

/-- In a run of replies routes are recognised rightly if and only if none is longer than `old_rr`
and none differs from the last printed one only where they are not compared. -/
theorem same_route_iff (areas : List OptionArea) :
    SameRoutes areas ↔
      (∀ r ∈ runRoutes areas, r.filled ≤ MAX_IPOPTLEN) ∧ Telling none (runRoutes areas) := by
  have hwhole : ∀ r ∈ runRoutes areas, Whole r := by
    intro r mem
    obtain ⟨area, -, mem⟩ := List.mem_flatMap.mp mem
    exact whole_recordRoutes area.cp r mem
  rw [SameRoutes, walkReplies_eq]
  exact @replay_honest_iff (runRoutes areas) none hwhole (Nat.zero_le _)

/-- A reply with one of two addresses recorded, 10.0.0.x. -/
def oneAddress (x : UInt8) : OptionArea where
  cp i := [IPOPT_RR, 11, 8, 10, 0, 0, x, 0, 0, 0, 0, 0].getD i 0
  totlen := 12

theorem runRoutes_oneAddress (x : UInt8) :
    recordRoutes (oneAddress x).cp 0 12 = [routeAt (oneAddress x).cp 0] := by
  have hfirst : (oneAddress x).cp 0 = IPOPT_RR := rfl
  have hfilled : (routeAt (oneAddress x).cp 0).filled = 4 := rfl
  have hroute : routeOption (oneAddress x).cp 0 = [routeAt (oneAddress x).cp 0] :=
    if_pos ⟨hfirst, by rw [hfilled]; decide⟩
  have hend : recordRoutes (oneAddress x).cp 11 1 = [] := by
    rw [recordRoutes, if_pos (.inr rfl)]
  have hlength : (oneAddress x).cp (0 + 1) = 11 := rfl
  rw [recordRoutes, hfirst, if_neg (by decide), if_neg (by decide), hlength, if_neg (by decide),
    hroute]
  exact congrArg ([routeAt (oneAddress x).cp 0] ++ ·) hend

/-- The last byte of an address is not compared, and 10.0.0.2 passes for 10.0.0.1. -/
theorem same_route_wrong : ¬SameRoutes [oneAddress 1, oneAddress 2] := by
  rintro ⟨verdicts, hwalk, hhonest⟩
  have hroutes : runRoutes [oneAddress 1, oneAddress 2] =
      [routeAt (oneAddress 1).cp 0, routeAt (oneAddress 2).cp 0] := by
    rw [runRoutes, List.flatMap_cons, List.flatMap_cons, List.flatMap_nil]
    change recordRoutes (oneAddress 1).cp 0 12 ++ (recordRoutes (oneAddress 2).cp 0 12 ++ []) = _
    rw [runRoutes_oneAddress, runRoutes_oneAddress]
    rfl
  have hrun : walkReplies [oneAddress 1, oneAddress 2] [] =
      some [(routeAt (oneAddress 1).cp 0, .printed), (routeAt (oneAddress 2).cp 0, .same)] := by
    rw [walkReplies_eq, hroutes, verdicts_printed (by decide) (by decide),
      verdicts_same (by decide)]
    rfl
  obtain rfl := Option.some.inj (hwalk.symm.trans hrun)
  exact absurd hhonest.1 (by decide)

end Coping.RecordRoute
