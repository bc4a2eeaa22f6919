import Coping.Library.JsonObject

/-!
# Reading without fuel

The fuel of a reader bounds the nesting. A text is long enough for every value that can be
read from it, so that the readers of `Json` can be taken without fuel: they read from a text
what they read with any fuel that is not shorter than it.
-/

namespace Json

/-- The rest of a value, with the readers for what is in an object or array. -/
def valueFrom (ms : Option (List (List UInt8 × Value) × List UInt8))
    (vs : Option (List Value × List UInt8)) (c : UInt8) (rest : List UInt8) :
    Option (Value × List UInt8) :=
  if c = quote then (string rest).map fun s => (.string s.1, s.2)
  else if c = openBrace then
    match expect closeBrace rest with
    | some rest => some (.object [], rest)
    | none => ms.map fun ms => (.object ms.1, ms.2)
  else if c = openBracket then
    match expect closeBracket rest with
    | some rest => some (.array [], rest)
    | none => vs.map fun vs => (.array vs.1, vs.2)
  else if c = 0x6e then literal [0x6e, 0x75, 0x6c, 0x6c] .null (c :: rest)
  else if c = 0x74 then literal [0x74, 0x72, 0x75, 0x65] (.bool true) (c :: rest)
  else if c = 0x66 then literal [0x66, 0x61, 0x6c, 0x73, 0x65] (.bool false) (c :: rest)
  else (number (c :: rest)).map fun text => (.number text.1, text.2)

/-- The key of a member, up to its colon. -/
def memberKey (bytes : List UInt8) : Option (List UInt8 × List UInt8) :=
  (expect quote bytes).bind fun rest => (string rest).bind fun key =>
    (expect colon key.2).map fun rest => (key.1, rest)

/-- What comes behind a value, up to the end of the list in which it is. -/
def behind {α : Type} (close : UInt8) (more : List UInt8 → Option (List α × List UInt8))
    (bytes : List UInt8) : Option (List α × List UInt8) :=
  match expect comma bytes with
  | some rest => more rest
  | none => (expect close bytes).map fun rest => ([], rest)

section Steps

variable {n : Nat} {bytes rest : List UInt8} {c : UInt8}

theorem value_none (n : Nat) (h : skipSpace bytes = []) : value n bytes = none := by
  cases n with
  | zero => rfl
  | succ n => rw [value, h]

theorem value_cons (n : Nat) (h : skipSpace bytes = c :: rest) :
    value (n + 1) bytes = valueFrom (members n rest) (items n rest) c rest := by
  rw [value, h]
  rfl

theorem valueFrom_object {ms : Option (List (List UInt8 × Value) × List UInt8)}
    {vs : Option (List Value × List UInt8)} (close : expect closeBrace bytes = some rest) :
    valueFrom ms vs openBrace bytes = some (.object [], rest) := by
  rw [valueFrom, if_neg (by decide), if_pos rfl, close]

theorem valueFrom_members {ms : Option (List (List UInt8 × Value) × List UInt8)}
    {vs : Option (List Value × List UInt8)} (close : expect closeBrace bytes = none) :
    valueFrom ms vs openBrace bytes = ms.map fun ms => (.object ms.1, ms.2) := by
  rw [valueFrom, if_neg (by decide), if_pos rfl, close]

theorem valueFrom_array {ms : Option (List (List UInt8 × Value) × List UInt8)}
    {vs : Option (List Value × List UInt8)} (close : expect closeBracket bytes = some rest) :
    valueFrom ms vs openBracket bytes = some (.array [], rest) := by
  rw [valueFrom, if_neg (by decide), if_neg (by decide), if_pos rfl, close]

theorem valueFrom_items {ms : Option (List (List UInt8 × Value) × List UInt8)}
    {vs : Option (List Value × List UInt8)} (close : expect closeBracket bytes = none) :
    valueFrom ms vs openBracket bytes = vs.map fun vs => (.array vs.1, vs.2) := by
  rw [valueFrom, if_neg (by decide), if_neg (by decide), if_pos rfl, close]

theorem members_eq (n : Nat) (bytes : List UInt8) :
    members (n + 1) bytes =
      (memberKey bytes).bind fun key => (value n key.2).bind fun v =>
        (behind closeBrace (members n) v.2).map fun ms => ((key.1, v.1) :: ms.1, ms.2) := by
  rw [members, memberKey, Option.bind_assoc]
  refine Option.bind_congr fun rest _ => ?_
  rw [Option.bind_assoc]
  refine Option.bind_congr fun key _ => ?_
  rw [Option.bind_map]
  refine Option.bind_congr fun rest _ => Option.bind_congr fun v _ => ?_
  dsimp only [behind]
  cases expect comma v.2 with
  | some rest =>
      change (members n rest).bind _ = (members n rest).map _
      cases members n rest <;> rfl
  | none => cases expect closeBrace v.2 <;> rfl

theorem items_behind (n : Nat) (bytes : List UInt8) :
    items (n + 1) bytes =
      (value n bytes).bind fun v =>
        (behind closeBracket (items n) v.2).map fun vs => (v.1 :: vs.1, vs.2) := by
  rw [items_eq]
  refine Option.bind_congr fun v _ => ?_
  dsimp only [behind]
  cases expect comma v.2 with
  | some rest =>
      change (items n rest).bind _ = (items n rest).map _
      cases items n rest <;> rfl
  | none => cases expect closeBracket v.2 <;> rfl

end Steps

/-! ## What is read is shorter -/

section Length

variable {bytes rest : List UInt8} {c : UInt8}

theorem length_skipSpace (bytes : List UInt8) : (skipSpace bytes).length ≤ bytes.length :=
  (List.dropWhile_suffix _).length_le

theorem expect_length (h : expect c bytes = some rest) : rest.length < bytes.length := by
  have hskip := length_skipSpace bytes
  rw [expect] at h
  split at h
  next b tail htail =>
    split at h
    · cases h
      rw [htail, List.length_cons] at hskip
      exact hskip
    · cases h
  · cases h

theorem string_length {s : List UInt8} (h : string bytes = some (s, rest)) :
    rest.length < bytes.length := by
  obtain ⟨text, rfl, -⟩ := read_of_stringTail h
  rw [List.length_append, List.length_cons]
  omega

theorem sign_length (signs bytes : List UInt8) : (sign signs bytes).2.length ≤ bytes.length := by
  cases bytes with
  | nil => exact Nat.le_refl 0
  | cons c bytes =>
      rw [sign]
      split
      · exact Nat.le_succ _
      · exact Nat.le_refl _

theorem digits_length (bytes : List UInt8) :
    (digits bytes).1.length + (digits bytes).2.length = bytes.length := by
  rw [digits, ← List.length_append, List.takeWhile_append_dropWhile]

theorem part_length {marks signs text : List UInt8}
    (h : part marks signs bytes = some (text, rest)) : rest.length ≤ bytes.length := by
  cases bytes with
  | nil =>
      cases h
      exact Nat.le_refl 0
  | cons c bytes =>
      rw [part] at h
      split at h
      · have hsign := sign_length signs bytes
        have hdigits := digits_length (sign signs bytes).2
        dsimp only at h
        split at h
        · cases h
        · cases h
          rw [List.length_cons]
          omega
      · cases h
        exact Nat.le_refl _

theorem number_length {text : List UInt8} (h : number bytes = some (text, rest)) :
    rest.length < bytes.length := by
  have hsign := sign_length [0x2d] bytes
  have hdigits := digits_length (sign [0x2d] bytes).2
  rw [number] at h
  dsimp only at h
  split at h
  · cases h
  next hwhole =>
    have hnonempty := List.length_pos_iff.mpr (not_or.mp hwhole).1
    simp only [Option.bind_eq_bind, Option.bind_eq_some_iff] at h
    obtain ⟨⟨fraction, rest'⟩, hfraction, ⟨exponent, rest''⟩, hexponent, h⟩ := h
    cases h
    have hlength := part_length hfraction
    have hlength' := part_length hexponent
    dsimp only at hlength' ⊢
    omega

theorem literal_length {word : List UInt8} {v v' : Value} (nonempty : word ≠ [])
    (h : literal word v bytes = some (v', rest)) : rest.length < bytes.length := by
  have hpositive := List.length_pos_iff.mpr nonempty
  rw [literal] at h
  split at h
  next hfront =>
    have hle := (List.isPrefixOf_iff_prefix.mp hfront).length_le
    cases h
    rw [List.length_drop]
    omega
  · cases h

theorem memberKey_length {key : List UInt8} (h : memberKey bytes = some (key, rest)) :
    rest.length < bytes.length := by
  simp only [memberKey, Option.bind_eq_some_iff, Option.map_eq_some_iff] at h
  obtain ⟨rest₁, hquote, ⟨key', rest₂⟩, hstring, rest₃, hcolon, h⟩ := h
  cases h
  have hquoted := expect_length hquote
  have hkey := string_length hstring
  have hrest := expect_length hcolon
  dsimp only at hrest
  omega

/-- A value is read without the readers of members and items, or by one of them. -/
theorem valueFrom_cases {ms : Option (List (List UInt8 × Value) × List UInt8)}
    {vs : Option (List Value × List UInt8)} {v : Value} {tail : List UInt8}
    (h : valueFrom ms vs c tail = some (v, rest)) :
    (rest.length ≤ tail.length ∧ ∀ ms' vs', valueFrom ms' vs' c tail = some (v, rest)) ∨
    (∃ read, ms = some (read, rest) ∧ ∀ vs', valueFrom ms vs' c tail = some (v, rest)) ∨
    ∃ read, vs = some (read, rest) ∧ ∀ ms', valueFrom ms' vs c tail = some (v, rest) := by
  unfold valueFrom at h ⊢
  split
  next hquote =>
    rw [if_pos hquote] at h
    obtain ⟨⟨s, rest'⟩, hstring, heq⟩ := Option.map_eq_some_iff.mp h
    cases heq
    exact .inl ⟨Nat.le_of_lt (string_length hstring), fun _ _ => h⟩
  next hquote =>
  rw [if_neg hquote] at h
  split
  next hbrace =>
    rw [if_pos hbrace] at h
    cases hclose : expect closeBrace tail with
    | some rest' =>
        rw [hclose] at h
        cases h
        exact .inl ⟨Nat.le_of_lt (expect_length hclose), fun _ _ => rfl⟩
    | none =>
        rw [hclose] at h
        obtain ⟨⟨read, rest'⟩, hread, heq⟩ := Option.map_eq_some_iff.mp h
        cases heq
        exact .inr (.inl ⟨read, hread, fun _ => h⟩)
  next hbrace =>
  rw [if_neg hbrace] at h
  split
  next hbracket =>
    rw [if_pos hbracket] at h
    cases hclose : expect closeBracket tail with
    | some rest' =>
        rw [hclose] at h
        cases h
        exact .inl ⟨Nat.le_of_lt (expect_length hclose), fun _ _ => rfl⟩
    | none =>
        rw [hclose] at h
        obtain ⟨⟨read, rest'⟩, hread, heq⟩ := Option.map_eq_some_iff.mp h
        cases heq
        exact .inr (.inr ⟨read, hread, fun _ => h⟩)
  next hbracket =>
  rw [if_neg hbracket] at h
  refine .inl ⟨?_, fun _ _ => h⟩
  split at h
  · exact Nat.le_of_lt_succ (literal_length (by decide) h)
  split at h
  · exact Nat.le_of_lt_succ (literal_length (by decide) h)
  split at h
  · exact Nat.le_of_lt_succ (literal_length (by decide) h)
  · obtain ⟨⟨text, rest'⟩, hnumber, heq⟩ := Option.map_eq_some_iff.mp h
    cases heq
    exact Nat.le_of_lt_succ (number_length hnumber)

end Length

/-! ## Enough fuel -/

section Fuel

variable {α : Type} {bytes rest : List UInt8}

/-- What a reader has read it reads with any fuel that is as long as the text it has taken. -/
def Enough (read : Nat → List UInt8 → Option (α × List UInt8)) (n : Nat) : Prop :=
  ∀ bytes a rest, read n bytes = some (a, rest) →
    rest.length < bytes.length ∧ ∀ m, bytes.length ≤ m + rest.length →
      read m bytes = some (a, rest)

theorem behind_enough {close : UInt8} {read : Nat → List UInt8 → Option (List α × List UInt8)}
    {n : Nat} (h : Enough read n) : Enough (fun n => behind close (read n)) n := by
  intro bytes as rest hread
  dsimp only [behind] at hread ⊢
  cases hcomma : expect comma bytes with
  | some next =>
      have hlength := expect_length hcomma
      rw [hcomma] at hread
      obtain ⟨hrest, hmore⟩ := h next as rest hread
      exact ⟨by omega, fun m hm => hmore m (by omega)⟩
  | none =>
      rw [hcomma] at hread
      obtain ⟨rest', hclose, heq⟩ := Option.map_eq_some_iff.mp hread
      cases heq
      exact ⟨expect_length hclose, fun _ _ => hread⟩

theorem value_enough {n : Nat} (hmembers : Enough members n) (hitems : Enough items n) :
    Enough value (n + 1) := by
  intro bytes v rest h
  cases hskip : skipSpace bytes with
  | nil =>
      rw [value_none _ hskip] at h
      cases h
  | cons c tail =>
      have hlength := length_skipSpace bytes
      rw [hskip, List.length_cons] at hlength
      rw [value_cons n hskip] at h
      have hfuel : ∀ {m}, bytes.length ≤ m + rest.length → rest.length < bytes.length →
          ∃ k, m = k + 1 ∧ tail.length ≤ k + rest.length := by
        intro m hm hrest
        obtain ⟨k, rfl⟩ : ∃ k, m = k + 1 := Nat.exists_eq_add_of_le' (by omega)
        exact ⟨k, rfl, by omega⟩
      obtain ⟨hrest, hread⟩ | ⟨ms, hms, hread⟩ | ⟨vs, hvs, hread⟩ := valueFrom_cases h
      · refine ⟨by omega, fun m hm => ?_⟩
        obtain ⟨k, rfl, -⟩ := hfuel hm (by omega)
        rw [value_cons k hskip]
        exact hread _ _
      · obtain ⟨hrest, hmore⟩ := hmembers tail ms rest hms
        refine ⟨by omega, fun m hm => ?_⟩
        obtain ⟨k, rfl, hk⟩ := hfuel hm (by omega)
        rw [value_cons k hskip, hmore k hk, ← hms]
        exact hread _
      · obtain ⟨hrest, hmore⟩ := hitems tail vs rest hvs
        refine ⟨by omega, fun m hm => ?_⟩
        obtain ⟨k, rfl, hk⟩ := hfuel hm (by omega)
        rw [value_cons k hskip, hmore k hk, ← hvs]
        exact hread _

theorem members_enough {n : Nat} (hvalue : Enough value n) (hmembers : Enough members n) :
    Enough members (n + 1) := by
  intro bytes ms rest h
  rw [members_eq] at h
  simp only [Option.bind_eq_some_iff, Option.map_eq_some_iff] at h
  obtain ⟨⟨key, rest₁⟩, hkey, ⟨v, rest₂⟩, hv, ⟨others, rest₃⟩, hothers, heq⟩ := h
  cases heq
  have hlength := memberKey_length hkey
  obtain ⟨hrest₂, hreadValue⟩ := hvalue _ _ _ hv
  obtain ⟨hrest₃, hreadOthers⟩ := behind_enough hmembers _ _ _ hothers
  dsimp only at hrest₂ hrest₃ hreadValue hreadOthers ⊢
  refine ⟨by omega, fun m hm => ?_⟩
  obtain ⟨k, rfl⟩ : ∃ k, m = k + 1 := Nat.exists_eq_add_of_le' (by omega)
  rw [members_eq, hkey, Option.bind_some]
  dsimp only
  rw [hreadValue k (by omega), Option.bind_some]
  dsimp only
  rw [hreadOthers k (by omega), Option.map_some]

theorem items_enough {n : Nat} (hvalue : Enough value n) (hitems : Enough items n) :
    Enough items (n + 1) := by
  intro bytes vs rest h
  rw [items_behind] at h
  simp only [Option.bind_eq_some_iff, Option.map_eq_some_iff] at h
  obtain ⟨⟨v, rest₁⟩, hv, ⟨others, rest₂⟩, hothers, heq⟩ := h
  cases heq
  obtain ⟨hrest₁, hreadValue⟩ := hvalue _ _ _ hv
  obtain ⟨hrest₂, hreadOthers⟩ := behind_enough hitems _ _ _ hothers
  dsimp only at hrest₁ hrest₂ hreadValue hreadOthers ⊢
  refine ⟨by omega, fun m hm => ?_⟩
  obtain ⟨k, rfl⟩ : ∃ k, m = k + 1 := Nat.exists_eq_add_of_le' (by omega)
  rw [items_behind, hreadValue k (by omega), Option.bind_some]
  dsimp only
  rw [hreadOthers k (by omega), Option.map_some]

theorem enough (n : Nat) : Enough value n ∧ Enough members n ∧ Enough items n := by
  induction n with
  | zero =>
      refine ⟨?_, ?_, ?_⟩
      · exact fun _ _ _ h => nomatch h
      · exact fun _ _ _ h => nomatch h
      · exact fun _ _ _ h => nomatch h
  | succ n ih =>
      obtain ⟨hvalue, hmembers, hitems⟩ := ih
      exact ⟨value_enough hmembers hitems, members_enough hvalue hmembers,
        items_enough hvalue hitems⟩

/-- A reader with as much fuel as there is text. -/
def unfueled (read : Nat → List UInt8 → Option (α × List UInt8)) (bytes : List UInt8) :
    Option (α × List UInt8) :=
  read bytes.length bytes

theorem unfueled_eq {read : Nat → List UInt8 → Option (α × List UInt8)}
    (h : ∀ n, Enough read n) {n : Nat} (fuel : bytes.length ≤ n) :
    read n bytes = unfueled read bytes := by
  rw [unfueled]
  cases hread : read n bytes with
  | some r => exact (((h n) bytes r.1 r.2 hread).2 bytes.length (Nat.le_add_right _ _)).symm
  | none =>
      cases hread' : read bytes.length bytes with
      | none => rfl
      | some r =>
          have hmore := ((h _) bytes r.1 r.2 hread').2 n (Nat.le_add_right_of_le fuel)
          rw [hread] at hmore
          cases hmore

end Fuel

/-! ## The readers without fuel -/

section Unfueled

variable {bytes rest : List UInt8} {c : UInt8}

def valueOf : List UInt8 → Option (Value × List UInt8) := unfueled value

def membersOf : List UInt8 → Option (List (List UInt8 × Value) × List UInt8) := unfueled members

def itemsOf : List UInt8 → Option (List Value × List UInt8) := unfueled items

theorem value_fuel {n : Nat} (fuel : bytes.length ≤ n) : value n bytes = valueOf bytes :=
  unfueled_eq (fun n => (enough n).1) fuel

theorem members_fuel {n : Nat} (fuel : bytes.length ≤ n) : members n bytes = membersOf bytes :=
  unfueled_eq (fun n => (enough n).2.1) fuel

theorem items_fuel {n : Nat} (fuel : bytes.length ≤ n) : items n bytes = itemsOf bytes :=
  unfueled_eq (fun n => (enough n).2.2) fuel

theorem valueOf_length {v : Value} (h : valueOf bytes = some (v, rest)) :
    rest.length < bytes.length := ((enough _).1 bytes v rest h).1

theorem valueOf_cons (h : skipSpace bytes = c :: rest) :
    valueOf bytes = valueFrom (membersOf rest) (itemsOf rest) c rest := by
  have hlength := length_skipSpace bytes
  rw [h, List.length_cons] at hlength
  rw [← value_fuel (Nat.le_refl bytes.length),
    ← Nat.sub_add_cancel (Nat.le_trans (Nat.le_add_left 1 rest.length) hlength),
    value_cons _ h, members_fuel (by omega), items_fuel (by omega)]

theorem behind_congr {α : Type} {close : UInt8}
    {read read' : List UInt8 → Option (List α × List UInt8)}
    (h : ∀ rest, rest.length < bytes.length → read rest = read' rest) :
    behind close read bytes = behind close read' bytes := by
  rw [behind, behind]
  cases hcomma : expect comma bytes with
  | none => rfl
  | some rest => exact h rest (expect_length hcomma)

theorem membersOf_eq (bytes : List UInt8) :
    membersOf bytes =
      (memberKey bytes).bind fun key => (valueOf key.2).bind fun v =>
        (behind closeBrace membersOf v.2).map fun ms => ((key.1, v.1) :: ms.1, ms.2) := by
  rw [← members_fuel (Nat.le_succ bytes.length), members_eq]
  refine Option.bind_congr fun key hkey => ?_
  have hlength := memberKey_length hkey
  rw [value_fuel (Nat.le_of_lt hlength)]
  refine Option.bind_congr fun v hvalue => ?_
  have hlength' := valueOf_length hvalue
  rw [behind_congr fun more hmore => members_fuel (by omega)]

theorem itemsOf_eq (bytes : List UInt8) :
    itemsOf bytes =
      (valueOf bytes).bind fun v =>
        (behind closeBracket itemsOf v.2).map fun vs => (v.1 :: vs.1, vs.2) := by
  rw [← items_fuel (Nat.le_succ bytes.length), items_behind, value_fuel (Nat.le_refl _)]
  refine Option.bind_congr fun v hvalue => ?_
  have hlength := valueOf_length hvalue
  rw [behind_congr fun more hmore => items_fuel (by omega)]

end Unfueled

end Json
