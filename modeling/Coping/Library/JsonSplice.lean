import Mathlib.Data.List.TakeWhile
import Coping.Library.JsonFuel

/-!
# A text between quotes that is not escaped

A program that prints a text between quotes as it is may print something else than a string:
a quote in the text ends the string, and what follows it in the text is read as JSON. Whether
the object is one all the same is told by the text alone, whatever members are around it. Up
to the quote that the program prints behind the text, a reader either is done, or has just
read a member of the object, or will not come to an end of the object at all.
-/

namespace Json

/-- Neither an object nor an array goes on with it. -/
def Dead (rest : List UInt8) : Prop :=
  ∀ c ∈ [comma, colon, closeBrace, closeBracket], expect c rest = none

/-- What may stand behind the last quote: the end of the object, or other members and the
end. It is of no use to a string or to an array that the text has begun. -/
structure Tail (tail : List UInt8) : Prop where
  colon : expect colon tail = none
  strings : ∀ front s q rest, tail = q ++ quote :: rest → Read s (front ++ q) → Dead rest
  members : ∀ ms rest, behind closeBrace membersOf tail = some (ms, rest) → Dead rest
  items : behind closeBracket itemsOf tail = none

section Steps

variable {bytes rest : List UInt8}

theorem Dead.behind {α : Type} {more : List UInt8 → Option (List α × List UInt8)} {close : UInt8}
    (dead : Dead rest) (mem : close ∈ [comma, colon, closeBrace, closeBracket]) :
    behind close more rest = none := by
  rw [Json.behind, dead comma (by decide), dead close mem]
  rfl

theorem dead_of_blank (blank : rest.all isSpace = true) : Dead rest := by
  have hnil : skipSpace rest = [] := List.dropWhile_eq_nil_iff.mpr (List.all_eq_true.mp blank)
  intro c _
  rw [expect, hnil]

theorem expect_space (c : UInt8) {b : UInt8} (space : isSpace b = true) (bytes : List UInt8) :
    expect c (b :: bytes) = expect c bytes := by
  rw [expect, expect, skipSpace, skipSpace, List.dropWhile_cons_of_pos space]

theorem Read.spells {s text : List UInt8} (h : Read s text) : Spells s text := by
  induction h with
  | nil => exact .nil
  | plain hc _ ih => exact .plain hc ih
  | escape hclosed _ ih => exact .escape hclosed.reads ih

end Steps

/-! ## The parts of a value -/

section Parts

variable {p : List UInt8}

/-- Either the byte is there, or it is the quote, or there is another one. -/
theorem expect_cases (c : UInt8) (space : isSpace c = false) (p : List UInt8) :
    (∃ p', p'.length < p.length ∧
      ∀ tail, expect c (p ++ quote :: tail) = some (p' ++ quote :: tail)) ∨
    (c = quote ∧ ∀ tail, expect c (p ++ quote :: tail) = some tail) ∨
    ∀ tail, expect c (p ++ quote :: tail) = none := by
  induction p with
  | nil =>
      by_cases hquote : c = quote
      · subst hquote
        exact .inr (.inl ⟨rfl, fun tail => expect_cons space⟩)
      · exact .inr (.inr fun tail => expect_other (by decide) (Ne.symm hquote))
  | cons b p ih =>
      by_cases hspace : isSpace b = true
      · simp only [List.cons_append, expect_space c hspace]
        obtain ⟨p', hp', hread⟩ | hquote | hnone := ih
        · exact .inl ⟨p', Nat.lt_succ_of_lt hp', hread⟩
        · exact .inr (.inl hquote)
        · exact .inr (.inr hnone)
      · rw [Bool.not_eq_true] at hspace
        by_cases hb : b = c
        · subst hb
          exact .inl ⟨p, Nat.lt_succ_self _, fun tail => expect_cons space⟩
        · exact .inr (.inr fun tail => expect_other hspace hb)

/-- A string ends in the text, or with the quote, or behind it. -/
theorem string_cases (p : List UInt8) :
    (∃ s p', p'.length < p.length ∧
      ∀ tail, string (p ++ quote :: tail) = some (s, p' ++ quote :: tail)) ∨
    (∃ s, ∀ tail, string (p ++ quote :: tail) = some (s, tail)) ∨
    ∀ tail s rest, Tail tail → string (p ++ quote :: tail) = some (s, rest) → Dead rest := by
  by_cases hinside : ∃ s text p', p = text ++ quote :: p' ∧ Read s text
  · obtain ⟨s, text, p', rfl, hread⟩ := hinside
    refine .inl ⟨s, p', ?_, ?_⟩
    · rw [List.length_append, List.length_cons]
      omega
    · intro tail
      rw [List.append_assoc, List.cons_append, string_of_spells hread.spells]
  by_cases hend : ∃ s, Read s p
  · obtain ⟨s, hread⟩ := hend
    exact .inr (.inl ⟨s, fun tail => string_of_spells hread.spells tail⟩)
  refine .inr (.inr fun tail s rest htail hstring => ?_)
  obtain ⟨text, htext, hread⟩ := read_of_stringTail hstring
  obtain ⟨a, rfl, ha⟩ | ⟨a, rfl, ha⟩ := List.append_eq_append_iff.mp htext
  · obtain _ | ⟨b, q⟩ := a
    · rw [List.append_nil] at hread
      exact absurd ⟨s, hread⟩ hend
    · obtain ⟨rfl, hq⟩ := List.cons.inj ha
      refine htail.strings (p ++ [quote]) s q rest hq ?_
      rwa [List.append_assoc]
  · obtain _ | ⟨b, q⟩ := a
    · rw [List.append_nil] at hend
      exact absurd ⟨s, hread⟩ hend
    · obtain ⟨rfl, -⟩ := List.cons.inj ha
      exact absurd ⟨s, text, q, rfl, hread⟩ hinside

theorem literal_cases {word : List UInt8} (v : Value) (unquoted : quote ∉ word)
    (nonempty : word ≠ []) (p : List UInt8) :
    (∃ p', p'.length < p.length ∧
      ∀ tail, literal word v (p ++ quote :: tail) = some (v, p' ++ quote :: tail)) ∨
    ∀ tail, literal word v (p ++ quote :: tail) = none := by
  by_cases hword : word <+: p
  · obtain ⟨p', rfl⟩ := hword
    refine .inl ⟨p', ?_, fun tail => ?_⟩
    · have := List.length_pos_iff.mpr nonempty
      rw [List.length_append]
      omega
    · have hfront : word.isPrefixOf (word ++ p' ++ quote :: tail) = true := by
        rw [List.isPrefixOf_iff_prefix, List.append_assoc]
        exact List.prefix_append _ _
      rw [literal, if_pos hfront, List.append_assoc, List.drop_left]
  · refine .inr fun tail => ?_
    rw [literal, if_neg]
    intro hfront
    rw [List.isPrefixOf_iff_prefix] at hfront
    obtain ⟨hp, -⟩ | ⟨q, rfl, hq⟩ := Member.prefix_append_cases hfront
    · exact hword hp
    · obtain rfl | ⟨q', rfl, -⟩ := Member.prefix_cons_cases hq
      · exact hword ((List.append_nil p).symm ▸ List.prefix_rfl)
      · exact unquoted (List.mem_append_right p List.mem_cons_self)

theorem sign_cases {signs : List UInt8} (unquoted : quote ∉ signs) (p : List UInt8) :
    ∃ s p', p'.length ≤ p.length ∧
      ∀ tail, sign signs (p ++ quote :: tail) = (s, p' ++ quote :: tail) := by
  cases p with
  | nil => exact ⟨[], [], Nat.le_refl 0, fun tail => if_neg unquoted⟩
  | cons c p =>
      by_cases hc : c ∈ signs
      · exact ⟨[c], p, Nat.le_succ _, fun tail => if_pos hc⟩
      · exact ⟨[], c :: p, Nat.le_refl _, fun tail => if_neg hc⟩

theorem digits_cases (p : List UInt8) :
    ∃ ds p', ds.length + p'.length = p.length ∧
      ∀ tail, digits (p ++ quote :: tail) = (ds, p' ++ quote :: tail) := by
  induction p with
  | nil => exact ⟨[], [], rfl, fun tail => rfl⟩
  | cons c p ih =>
      by_cases hc : isDigit c = true
      · obtain ⟨ds, p', hlength, hdigits⟩ := ih
        refine ⟨c :: ds, p', ?_, fun tail => ?_⟩
        · rw [List.length_cons, List.length_cons]
          omega
        · have hrest := hdigits tail
          rw [digits, Prod.mk.injEq] at hrest
          rw [digits, List.cons_append, List.takeWhile_cons_of_pos hc,
            List.dropWhile_cons_of_pos hc, hrest.1, hrest.2]
      · refine ⟨[], c :: p, Nat.zero_add _, fun tail => ?_⟩
        rw [digits, List.cons_append, List.takeWhile_cons_of_neg hc, List.dropWhile_cons_of_neg hc]

theorem part_cases {marks signs : List UInt8} (noMark : quote ∉ marks) (noSign : quote ∉ signs)
    (p : List UInt8) :
    (∃ s p', p'.length ≤ p.length ∧
      ∀ tail, part marks signs (p ++ quote :: tail) = some (s, p' ++ quote :: tail)) ∨
    ∀ tail, part marks signs (p ++ quote :: tail) = none := by
  cases p with
  | nil => exact .inl ⟨[], [], Nat.le_refl 0, fun tail => if_neg noMark⟩
  | cons c p =>
      by_cases hc : c ∈ marks
      · obtain ⟨s, p', hsign, hreadSign⟩ := sign_cases noSign p
        obtain ⟨ds, p'', hdigits, hreadDigits⟩ := digits_cases p'
        have hpart : ∀ tail, part marks signs (c :: p ++ quote :: tail) =
            if ds = [] then none else some (c :: s ++ ds, p'' ++ quote :: tail) := by
          intro tail
          rw [List.cons_append, part, if_pos hc, hreadSign]
          dsimp only
          rw [hreadDigits]
        by_cases hds : ds = []
        · exact .inr fun tail => (hpart tail).trans (if_pos hds)
        · refine .inl ⟨c :: s ++ ds, p'', ?_, fun tail => (hpart tail).trans (if_neg hds)⟩
          rw [List.length_cons]
          omega
      · exact .inl ⟨[], c :: p, Nat.le_refl _, fun tail => if_neg hc⟩

theorem number_cases (p : List UInt8) :
    (∃ text p', p'.length < p.length ∧
      ∀ tail, number (p ++ quote :: tail) = some (text, p' ++ quote :: tail)) ∨
    ∀ tail, number (p ++ quote :: tail) = none := by
  obtain ⟨minus, p₁, hsign, hreadSign⟩ := sign_cases (by decide : quote ∉ [0x2d]) p
  obtain ⟨whole, p₂, hdigits, hreadDigits⟩ := digits_cases p₁
  have hnumber : ∀ tail, number (p ++ quote :: tail) =
      if whole = [] ∨ (whole.head? = some 0x30 ∧ whole.length ≠ 1) then none
      else (part [0x2e] [] (p₂ ++ quote :: tail)).bind fun fraction =>
        (part [0x65, 0x45] [0x2b, 0x2d] fraction.2).bind fun exponent =>
          some (minus ++ whole ++ fraction.1 ++ exponent.1, exponent.2) := by
    intro tail
    rw [number, hreadSign]
    dsimp only
    rw [hreadDigits]
    rfl
  by_cases hwhole : whole = [] ∨ (whole.head? = some 0x30 ∧ whole.length ≠ 1)
  · exact .inr fun tail => (hnumber tail).trans (if_pos hwhole)
  have hlength := List.length_pos_iff.mpr (not_or.mp hwhole).1
  obtain ⟨fraction, p₃, hfraction, hreadFraction⟩ | hnone :=
    part_cases (by decide : quote ∉ [0x2e]) List.not_mem_nil p₂
  · obtain ⟨exponent, p₄, hexponent, hreadExponent⟩ | hnone :=
      part_cases (by decide : quote ∉ [0x65, 0x45]) (by decide : quote ∉ [0x2b, 0x2d]) p₃
    · refine .inl ⟨minus ++ whole ++ fraction ++ exponent, p₄, by omega, fun tail => ?_⟩
      rw [hnumber, if_neg hwhole, hreadFraction, Option.bind_some]
      dsimp only
      rw [hreadExponent, Option.bind_some]
    · refine .inr fun tail => ?_
      rw [hnumber, if_neg hwhole, hreadFraction, Option.bind_some]
      dsimp only
      rw [hnone, Option.bind_none]
  · refine .inr fun tail => ?_
    rw [hnumber, if_neg hwhole, hnone, Option.bind_none]

end Parts

/-! ## Values, members and items -/

section Readers

variable {α : Type} {p : List UInt8}

/-- The reader is done in the text. -/
def Inside (read : List UInt8 → Option (α × List UInt8)) (p : List UInt8) : Prop :=
  ∃ a p', p'.length < p.length ∧
    ∀ tail, read (p ++ quote :: tail) = some (a, p' ++ quote :: tail)

/-- It does not come to an end of what is around the text. -/
def Stuck (read : List UInt8 → Option (α × List UInt8)) (p : List UInt8) : Prop :=
  ∀ tail, Tail tail → read (p ++ quote :: tail) = none

/-- Members have been read up to the quote, and the object goes on behind it. -/
def Open (read : List UInt8 → Option (List (List UInt8 × Value) × List UInt8))
    (p : List UInt8) : Prop :=
  ∃ front, ∀ tail, read (p ++ quote :: tail) =
    (behind closeBrace membersOf tail).map fun ms => (front ++ ms.1, ms.2)

/-- A value ends with the quote. -/
def Complete (p : List UInt8) : Prop := ∃ v, ∀ tail, valueOf (p ++ quote :: tail) = some (v, tail)

/-- It ends where nothing goes on, or does not end. -/
def Spoilt (p : List UInt8) : Prop :=
  ∀ tail v rest, Tail tail → valueOf (p ++ quote :: tail) = some (v, rest) → Dead rest

def ValueCases (p : List UInt8) : Prop := Inside valueOf p ∨ Complete p ∨ Spoilt p

def MembersCases (read : List UInt8 → Option (List (List UInt8 × Value) × List UInt8))
    (p : List UInt8) : Prop := Inside read p ∨ Open read p ∨ Stuck read p

def ItemsCases (read : List UInt8 → Option (List Value × List UInt8)) (p : List UInt8) : Prop :=
  Inside read p ∨ Stuck read p

/-- Nothing is read that begins with a spoilt value. -/
theorem Spoilt.behind {α β : Type} {p tail : List UInt8} (h : Spoilt p) (htail : Tail tail)
    {close : UInt8} {more : List UInt8 → Option (List α × List UInt8)}
    (mem : close ∈ [comma, colon, closeBrace, closeBracket])
    (f : Value → List α × List UInt8 → β) :
    ((valueOf (p ++ quote :: tail)).bind fun v => (behind close more v.2).map (f v.1)) = none := by
  rw [Option.bind_eq_none_iff]
  rintro ⟨v, rest⟩ hread
  rw [(h tail v rest htail hread).behind mem, Option.map_none]

/-- The key of a member is in the text. -/
theorem key_cases (p : List UInt8) :
    (∃ key p', p'.length < p.length ∧
      ∀ tail, memberKey (p ++ quote :: tail) = some (key, p' ++ quote :: tail)) ∨
    ∀ tail, Tail tail → memberKey (p ++ quote :: tail) = none := by
  have hdead : ∀ {bytes : List UInt8} {c tail}, Tail tail →
      expect quote bytes = some c → (∀ s rest, string c = some (s, rest) → Dead rest) →
      memberKey bytes = none := by
    intro bytes c tail htail hquote hstring
    rw [memberKey, hquote, Option.bind_some]
    cases hread : string c with
    | none => rfl
    | some read =>
        rw [Option.bind_some, hstring read.1 read.2 hread colon (by decide), Option.map_none]
  obtain ⟨p₁, hp₁, hopen⟩ | ⟨-, hopen⟩ | hnone := expect_cases quote (by decide) p
  · obtain ⟨key, p₂, hp₂, hstring⟩ | ⟨key, hstring⟩ | hstring := string_cases p₁
    · obtain ⟨p₃, hp₃, hcolon⟩ | ⟨hquote, -⟩ | hcolon := expect_cases colon (by decide) p₂
      · refine .inl ⟨key, p₃, by omega, fun tail => ?_⟩
        rw [memberKey, hopen, Option.bind_some, hstring, Option.bind_some]
        dsimp only
        rw [hcolon, Option.map_some]
      · cases hquote
      · refine .inr fun tail _ => ?_
        rw [memberKey, hopen, Option.bind_some, hstring, Option.bind_some]
        dsimp only
        rw [hcolon, Option.map_none]
    · refine .inr fun tail htail => ?_
      rw [memberKey, hopen, Option.bind_some, hstring, Option.bind_some]
      dsimp only
      rw [htail.colon, Option.map_none]
    · exact .inr fun tail htail => hdead htail (hopen tail) fun s rest => hstring tail s rest htail
  · refine .inr fun tail htail => hdead htail (hopen tail) fun s rest hread => ?_
    obtain ⟨text, rfl, htext⟩ := read_of_stringTail hread
    exact htail.strings [] s text rest rfl htext
  · refine .inr fun tail _ => ?_
    rw [memberKey, hnone, Option.bind_none]

/-- Behind a value in the text there is a comma, or the end of the list, or neither. -/
theorem behind_cases {more : List UInt8 → Option (List α × List UInt8)} {close : UInt8}
    (space : isSpace close = false) (other : close ≠ quote) (p : List UInt8) :
    (∃ q, q.length < p.length ∧
      ∀ tail, behind close more (p ++ quote :: tail) = more (q ++ quote :: tail)) ∨
    Inside (behind close more) p ∨ ∀ tail, behind close more (p ++ quote :: tail) = none := by
  obtain ⟨q, hq, hcomma⟩ | ⟨hquote, -⟩ | hcomma := expect_cases comma (by decide) p
  · exact .inl ⟨q, hq, fun tail => by rw [behind, hcomma]⟩
  · cases hquote
  have hbehind : ∀ tail, behind close more (p ++ quote :: tail) =
      (expect close (p ++ quote :: tail)).map fun rest => ([], rest) := by
    intro tail
    rw [behind, hcomma]
  obtain ⟨q, hq, hclose⟩ | ⟨hquote, -⟩ | hclose := expect_cases close space p
  · exact .inr (.inl ⟨[], q, hq, fun tail => by rw [hbehind, hclose, Option.map_some]⟩)
  · exact absurd hquote other
  · exact .inr (.inr fun tail => by rw [hbehind, hclose, Option.map_none])

theorem membersBehind_cases (ih : ∀ q : List UInt8, q.length < p.length →
    MembersCases membersOf q) : MembersCases (behind closeBrace membersOf) p := by
  obtain ⟨q, hq, hbehind⟩ | hinside | hnone :=
    @behind_cases _ membersOf closeBrace (by decide) (by decide) p
  · obtain ⟨ms, p', hp', hread⟩ | ⟨front, hread⟩ | hread := ih q hq
    · exact .inl ⟨ms, p', by omega, fun tail => (hbehind tail).trans (hread tail)⟩
    · exact .inr (.inl ⟨front, fun tail => (hbehind tail).trans (hread tail)⟩)
    · exact .inr (.inr fun tail htail => (hbehind tail).trans (hread tail htail))
  · exact .inl hinside
  · exact .inr (.inr fun tail _ => hnone tail)

theorem itemsBehind_cases (ih : ∀ q : List UInt8, q.length < p.length → ItemsCases itemsOf q) :
    ItemsCases (behind closeBracket itemsOf) p := by
  obtain ⟨q, hq, hbehind⟩ | hinside | hnone :=
    @behind_cases _ itemsOf closeBracket (by decide) (by decide) p
  · obtain ⟨vs, p', hp', hread⟩ | hread := ih q hq
    · exact .inl ⟨vs, p', by omega, fun tail => (hbehind tail).trans (hread tail)⟩
    · exact .inr fun tail htail => (hbehind tail).trans (hread tail htail)
  · exact .inl hinside
  · exact .inr fun tail _ => hnone tail

theorem members_cases_of (ih : ∀ q : List UInt8, q.length < p.length →
    ValueCases q ∧ MembersCases membersOf q) : MembersCases membersOf p := by
  obtain ⟨key, p₁, hp₁, hkey⟩ | hkey := key_cases p
  case inr =>
    refine .inr (.inr fun tail htail => ?_)
    rw [membersOf_eq, hkey tail htail, Option.bind_none]
  have hmembers : ∀ tail, membersOf (p ++ quote :: tail) =
      (valueOf (p₁ ++ quote :: tail)).bind fun v =>
        (behind closeBrace membersOf v.2).map fun ms => ((key, v.1) :: ms.1, ms.2) := by
    intro tail
    rw [membersOf_eq, hkey, Option.bind_some]
  obtain ⟨v, p₂, hp₂, hvalue⟩ | ⟨v, hvalue⟩ | hvalue := (ih p₁ hp₁).1
  · have hread : ∀ tail, membersOf (p ++ quote :: tail) =
        (behind closeBrace membersOf (p₂ ++ quote :: tail)).map fun ms =>
          ((key, v) :: ms.1, ms.2) := by
      intro tail
      rw [hmembers, hvalue, Option.bind_some]
    obtain ⟨ms, p₃, hp₃, hbehind⟩ | ⟨front, hbehind⟩ | hbehind :=
      @membersBehind_cases p₂ fun q hq => (ih q (by omega)).2
    · refine .inl ⟨(key, v) :: ms, p₃, by omega, fun tail => ?_⟩
      rw [hread, hbehind, Option.map_some]
    · refine .inr (.inl ⟨(key, v) :: front, fun tail => ?_⟩)
      rw [hread, hbehind, Option.map_map]
      rfl
    · refine .inr (.inr fun tail htail => ?_)
      rw [hread, hbehind tail htail, Option.map_none]
  · refine .inr (.inl ⟨[(key, v)], fun tail => ?_⟩)
    rw [hmembers, hvalue, Option.bind_some]
    rfl
  · refine .inr (.inr fun tail htail => (hmembers tail).trans ?_)
    exact hvalue.behind htail (show closeBrace ∈ _ by decide)
      fun v ms => ((key, v) :: ms.1, ms.2)

theorem items_cases_of (hcases : ValueCases p) (ih : ∀ q : List UInt8, q.length < p.length →
    ItemsCases itemsOf q) : ItemsCases itemsOf p := by
  obtain ⟨v, p₁, hp₁, hvalue⟩ | ⟨v, hvalue⟩ | hvalue := hcases
  · have hread : ∀ tail, itemsOf (p ++ quote :: tail) =
        (behind closeBracket itemsOf (p₁ ++ quote :: tail)).map fun vs => (v :: vs.1, vs.2) := by
      intro tail
      rw [itemsOf_eq, hvalue, Option.bind_some]
    obtain ⟨vs, p₂, hp₂, hbehind⟩ | hbehind :=
      @itemsBehind_cases p₁ fun q hq => ih q (by omega)
    · refine .inl ⟨v :: vs, p₂, by omega, fun tail => ?_⟩
      rw [hread, hbehind, Option.map_some]
    · refine .inr fun tail htail => ?_
      rw [hread, hbehind tail htail, Option.map_none]
  · refine .inr fun tail htail => ?_
    rw [itemsOf_eq, hvalue, Option.bind_some]
    dsimp only
    rw [htail.items, Option.map_none]
  · refine .inr fun tail htail => ?_
    rw [itemsOf_eq]
    exact hvalue.behind htail (show closeBracket ∈ _ by decide) fun v vs => (v :: vs.1, vs.2)

/-- The first byte of a value. -/
theorem skipSpace_cases (p : List UInt8) :
    (∃ c p', p'.length < p.length ∧
      ∀ tail, skipSpace (p ++ quote :: tail) = c :: (p' ++ quote :: tail)) ∨
    ∀ tail, skipSpace (p ++ quote :: tail) = quote :: tail := by
  induction p with
  | nil => exact .inr fun tail => List.dropWhile_cons_of_neg (by decide)
  | cons b p ih =>
      by_cases hspace : isSpace b = true
      · have hskip : ∀ tail, skipSpace (b :: p ++ quote :: tail) =
            skipSpace (p ++ quote :: tail) := fun tail => List.dropWhile_cons_of_pos hspace
        obtain ⟨c, p', hp', hread⟩ | hquote := ih
        · exact .inl ⟨c, p', Nat.lt_succ_of_lt hp', fun tail => (hskip tail).trans (hread tail)⟩
        · exact .inr fun tail => (hskip tail).trans (hquote tail)
      · exact .inl ⟨b, p, Nat.lt_succ_self _, fun tail => List.dropWhile_cons_of_neg hspace⟩

/-- A literal is in the text, from its first byte on. -/
theorem word_cases {word : List UInt8} (v : Value) (unquoted : quote ∉ word)
    (nonempty : word ≠ []) (c : UInt8) (p : List UInt8) :
    (∃ v' p', p'.length ≤ p.length ∧
      ∀ tail, literal word v (c :: (p ++ quote :: tail)) = some (v', p' ++ quote :: tail)) ∨
    ∀ tail, literal word v (c :: (p ++ quote :: tail)) = none := by
  obtain ⟨p', hp', hread⟩ | hnone := literal_cases v unquoted nonempty (c :: p)
  · exact .inl ⟨v, p', Nat.le_of_lt_succ hp', hread⟩
  · exact .inr hnone

/-- A value that is neither a string nor an object or array is in the text. -/
theorem plain_cases {c : UInt8} (ms : Option (List (List UInt8 × Value) × List UInt8))
    (vs : Option (List Value × List UInt8)) (string : c ≠ quote) (object : c ≠ openBrace)
    (array : c ≠ openBracket) (p : List UInt8) :
    (∃ v p', p'.length ≤ p.length ∧
      ∀ tail, valueFrom ms vs c (p ++ quote :: tail) = some (v, p' ++ quote :: tail)) ∨
    ∀ tail, valueFrom ms vs c (p ++ quote :: tail) = none := by
  simp only [valueFrom, if_neg string, if_neg object, if_neg array]
  split
  · exact word_cases .null (by decide) (by decide) c p
  split
  · exact word_cases (.bool true) (by decide) (by decide) c p
  split
  · exact word_cases (.bool false) (by decide) (by decide) c p
  · obtain ⟨text, p', hp', hread⟩ | hnone := number_cases (c :: p)
    · refine .inl ⟨.number text, p', Nat.le_of_lt_succ hp', fun tail => ?_⟩
      exact congrArg (Option.map _) (hread tail)
    · exact .inr fun tail => congrArg (Option.map _) (hnone tail)

theorem value_cases_of (ih : ∀ q : List UInt8, q.length < p.length →
    MembersCases membersOf q ∧ ItemsCases itemsOf q) : ValueCases p := by
  obtain ⟨c, q, hq, hskip⟩ | hskip := skipSpace_cases p
  case inr =>
    refine .inr (.inr fun tail v rest htail hread => ?_)
    rw [valueOf_cons (hskip tail), valueFrom, if_pos rfl] at hread
    obtain ⟨⟨s, rest'⟩, hstring, heq⟩ := Option.map_eq_some_iff.mp hread
    cases heq
    obtain ⟨text, rfl, htext⟩ := read_of_stringTail hstring
    exact htail.strings [] s text _ rfl htext
  have hvalue : ∀ tail, valueOf (p ++ quote :: tail) =
      valueFrom (membersOf (q ++ quote :: tail)) (itemsOf (q ++ quote :: tail)) c
        (q ++ quote :: tail) := fun tail => valueOf_cons (hskip tail)
  by_cases hquote : c = quote
  · subst hquote
    have hstring : ∀ tail, valueOf (p ++ quote :: tail) =
        (string (q ++ quote :: tail)).map fun s => (.string s.1, s.2) :=
      fun tail => (hvalue tail).trans (if_pos rfl)
    obtain ⟨s, p', hp', hread⟩ | ⟨s, hread⟩ | hread := string_cases q
    · refine .inl ⟨.string s, p', by omega, fun tail => ?_⟩
      rw [hstring, hread, Option.map_some]
    · refine .inr (.inl ⟨.string s, fun tail => ?_⟩)
      rw [hstring, hread, Option.map_some]
    · refine .inr (.inr fun tail v rest htail h => ?_)
      rw [hstring] at h
      obtain ⟨⟨s, rest'⟩, hs, heq⟩ := Option.map_eq_some_iff.mp h
      cases heq
      exact hread tail s _ htail hs
  by_cases hbrace : c = openBrace
  · subst hbrace
    obtain ⟨p', hp', hclose⟩ | ⟨habsurd, -⟩ | hclose := expect_cases closeBrace (by decide) q
    · exact .inl ⟨.object [], p', by omega, fun tail => by
        rw [hvalue, valueFrom_object (hclose tail)]⟩
    · cases habsurd
    have hobject : ∀ tail, valueOf (p ++ quote :: tail) =
        (membersOf (q ++ quote :: tail)).map fun ms => (.object ms.1, ms.2) :=
      fun tail => (hvalue tail).trans (valueFrom_members (hclose tail))
    obtain ⟨ms, p', hp', hread⟩ | ⟨front, hread⟩ | hread := (ih q hq).1
    · refine .inl ⟨.object ms, p', by omega, fun tail => ?_⟩
      rw [hobject, hread, Option.map_some]
    · refine .inr (.inr fun tail v rest htail h => ?_)
      rw [hobject, hread] at h
      simp only [Option.map_map, Option.map_eq_some_iff] at h
      obtain ⟨⟨ms, rest'⟩, hbehind, heq⟩ := h
      cases heq
      exact htail.members ms _ hbehind
    · refine .inr (.inr fun tail v rest htail h => ?_)
      rw [hobject, hread tail htail] at h
      cases h
  by_cases hbracket : c = openBracket
  · subst hbracket
    obtain ⟨p', hp', hclose⟩ | ⟨habsurd, -⟩ | hclose := expect_cases closeBracket (by decide) q
    · exact .inl ⟨.array [], p', by omega, fun tail => by
        rw [hvalue, valueFrom_array (hclose tail)]⟩
    · cases habsurd
    have harray : ∀ tail, valueOf (p ++ quote :: tail) =
        (itemsOf (q ++ quote :: tail)).map fun vs => (.array vs.1, vs.2) :=
      fun tail => (hvalue tail).trans (valueFrom_items (hclose tail))
    obtain ⟨vs, p', hp', hread⟩ | hread := (ih q hq).2
    · refine .inl ⟨.array vs, p', by omega, fun tail => ?_⟩
      rw [harray, hread, Option.map_some]
    · refine .inr (.inr fun tail v rest htail h => ?_)
      rw [harray, hread tail htail] at h
      cases h
  have hplain : ∀ tail, valueOf (p ++ quote :: tail) =
      valueFrom none none c (q ++ quote :: tail) := by
    intro tail
    rw [hvalue, valueFrom, valueFrom, if_neg hbrace, if_neg hbrace, if_neg hbracket,
      if_neg hbracket]
  obtain ⟨v, p', hp', hread⟩ | hread := plain_cases none none hquote hbrace hbracket q
  · exact .inl ⟨v, p', by omega, fun tail => (hplain tail).trans (hread tail)⟩
  · refine .inr (.inr fun tail v rest _ h => ?_)
    rw [hplain, hread] at h
    cases h

theorem reader_cases (p : List UInt8) :
    ValueCases p ∧ MembersCases membersOf p ∧ ItemsCases itemsOf p := by
  induction hlength : p.length using Nat.strongRecOn generalizing p with
  | ind length ih =>
      subst hlength
      have hvalue : ValueCases p := value_cases_of fun q hq => (ih _ hq q rfl).2
      exact ⟨hvalue, members_cases_of fun q hq => ⟨(ih _ hq q rfl).1, (ih _ hq q rfl).2.1⟩,
        items_cases_of hvalue fun q hq => (ih _ hq q rfl).2.2⟩

end Readers

/-! ## Tails -/

section Tails

variable {tail rest : List UInt8}

theorem Read.not_quote {s text : List UInt8} : ¬Read s (quote :: text) := by
  intro h
  cases h with
  | plain hquote => exact absurd hquote (by decide)

/-- A quote in a string has a backslash in front. -/
theorem Read.backslash_quote {s text a b : List UInt8} {c : UInt8} (h : Read s text)
    (heq : text = a ++ c :: quote :: b) : c = backslash := by
  induction h generalizing a with
  | nil => exact absurd heq.symm (by simp)
  | @plain d s text hd hread ih =>
      obtain _ | ⟨e, a⟩ := a
      · obtain ⟨rfl, rfl⟩ := List.cons.inj heq
        exact absurd hread Read.not_quote
      · exact ih (List.cons.inj heq).2
  | @escape meant written s text hclosed hread ih =>
      obtain _ | ⟨e, a⟩ := a
      · exact (List.cons.inj heq).1.symm
      obtain ⟨front, rfl, htext⟩ | ⟨front, rfl, hfront⟩ :=
        List.append_eq_append_iff.mp (List.cons.inj heq).2
      · exact ih htext
      obtain _ | ⟨d, _ | ⟨e', front⟩⟩ := front
      · exact @ih [] hfront.symm
      · obtain ⟨rfl, rfl⟩ := List.cons.inj hfront
        exact absurd hread Read.not_quote
      · obtain ⟨rfl, hback⟩ := List.cons.inj hfront
        obtain ⟨rfl, -⟩ := List.cons.inj hback
        have hlength := congrArg List.length (hclosed.quoted (by simp)).1
        rw [List.length_append, List.length_cons, List.length_cons, List.length_singleton]
          at hlength
        omega

/-- A key that no object or array goes on with. -/
def Word (key : List UInt8) : Prop := ∀ rest, Dead (key ++ quote :: rest)

theorem Word.cons {c : UInt8} {key : List UInt8} (space : isSpace c = false)
    (other : c ∉ [comma, colon, closeBrace, closeBracket]) : Word (c :: key) :=
  fun _ _ hd => expect_other space fun heq => other (heq ▸ hd)

theorem Tail.close (dead : Dead rest) (unquoted : quote ∉ rest) : Tail (closeBrace :: rest) where
  colon := expect_other (by decide) (by decide)
  strings := by
    intro front s q rest' heq _
    have hmem : quote ∈ closeBrace :: rest := by
      rw [heq]
      exact List.mem_append_right q List.mem_cons_self
    exact absurd hmem (by simpa using ⟨by decide, unquoted⟩)
  members := by
    intro ms rest' h
    rw [behind, expect_other (by decide) (by decide), expect_cons (by decide)] at h
    cases h
    exact dead
  items := by
    rw [behind, expect_other (by decide) (by decide), expect_other (by decide) (by decide)]
    rfl

theorem behind_others (m : Member) (ms : List Member) (rest : List UInt8) :
    behind closeBrace membersOf (Member.others (m :: ms) ++ closeBrace :: rest) =
      some ((m :: ms).map Member.pair, rest) := by
  rw [Member.others_cons, behind, expect_cons (by decide)]
  dsimp only
  rw [← members_fuel (Nat.le_refl _), members_space]
  apply Member.members_all
  simp only [List.length_append, List.length_cons]
  omega

theorem Tail.others (m : Member) (ms : List Member) (dead : Dead rest) (word : Word m.key) :
    Tail (Member.others (m :: ms) ++ closeBrace :: rest) where
  colon := by
    rw [Member.others_cons]
    exact expect_other (by decide) (by decide)
  strings := by
    intro front s q rest' heq hread
    rw [Member.others_cons, Member.text_append] at heq
    obtain _ | ⟨c, _ | ⟨d, _ | ⟨e, q⟩⟩⟩ := q
    · cases heq
    · cases heq
    · cases heq
      exact word _
    -- The quote in front of the key would be one of the string.
    · simp only [List.cons_append, List.cons.injEq] at heq
      obtain ⟨rfl, rfl, rfl, -⟩ := heq
      have hbackslash := @Read.backslash_quote s _ (front ++ [comma]) q space hread (by simp)
      cases hbackslash
  members := by
    intro read rest' h
    rw [behind_others] at h
    cases h
    exact dead
  items := by
    rw [Member.others_cons, Member.text_append, behind, expect_cons (by decide)]
    dsimp only
    rw [itemsOf_eq, valueOf_cons rfl, valueFrom, if_pos rfl,
      string_of_spells (Spells.of_plain m.plain), Option.map_some, Option.bind_some]
    dsimp only
    rw [behind, expect_other (by decide) (by decide), expect_other (by decide) (by decide)]
    rfl

end Tails

/-! ## The text in an object -/

section Object

variable {p bytes tail tail' : List UInt8}

/-- The members of an object, and nothing behind it but space. -/
def Ends (read : Option (List (List UInt8 × Value) × List UInt8)) : Prop :=
  ∃ ms rest, read = some (ms, rest) ∧ skipSpace rest = []

theorem parse_object_iff (bytes : List UInt8) :
    (∃ ms, parse (openBrace :: quote :: bytes) = some (.object ms)) ↔
      Ends (membersOf (quote :: bytes)) := by
  have hparse : parse (openBrace :: quote :: bytes) =
      (membersOf (quote :: bytes)).bind fun ms =>
        if skipSpace ms.2 = [] then some (.object ms.1) else none := by
    have hfuel : (quote :: bytes).length ≤ (openBrace :: quote :: bytes).length := Nat.le_succ _
    rw [parse, value_object_eq, members_fuel hfuel, Option.bind_eq_bind, Option.bind_map]
    rfl
  rw [hparse]
  constructor
  · rintro ⟨ms, h⟩
    obtain ⟨⟨read, rest⟩, hread, h⟩ := Option.bind_eq_some_iff.mp h
    dsimp only at h
    split at h
    next hspace => exact ⟨read, rest, hread, hspace⟩
    · cases h
  · rintro ⟨ms, rest, hread, hspace⟩
    refine ⟨ms, ?_⟩
    rw [hread, Option.bind_some]
    exact if_pos hspace

theorem Ends.map_append {read : Option (List (List UInt8 × Value) × List UInt8)}
    (front : List (List UInt8 × Value)) :
    Ends (read.map fun ms => (front ++ ms.1, ms.2)) ↔ Ends read := by
  constructor
  · rintro ⟨ms, rest, h, hspace⟩
    obtain ⟨⟨read', rest'⟩, hread, heq⟩ := Option.map_eq_some_iff.mp h
    cases heq
    exact ⟨read', _, hread, hspace⟩
  · rintro ⟨ms, rest, rfl, hspace⟩
    exact ⟨front ++ ms, rest, rfl, hspace⟩

theorem membersOf_space (bytes : List UInt8) : membersOf (space :: bytes) = membersOf bytes := by
  have hfuel : bytes.length ≤ (space :: bytes).length := Nat.le_succ _
  rw [← members_fuel (Nat.le_refl _), members_space, members_fuel hfuel]

theorem membersOf_front (m : Member) (ms : List Member) (tail : List UInt8) :
    membersOf (m.text ++ (Member.others ms ++ comma :: tail)) =
      (membersOf tail).map fun more => ((m :: ms).map Member.pair ++ more.1, more.2) := by
  have hlength : (m.text ++ (Member.others ms ++ comma :: tail)).length =
      m.text.length + (Member.others ms).length + tail.length + 1 := by
    simp only [List.length_append, List.length_cons]
    omega
  have hread : (m.text ++ Member.others ms).length =
      m.text.length + (Member.others ms).length := List.length_append
  rw [← members_fuel (by omega : _ ≤ (m.text ++ (Member.others ms ++ comma :: tail)).length +
    ms.length + 1), Member.members_front m ms _ tail (by omega), members_fuel (by omega)]

/-- Whether an object with the text is read does not depend on what is behind it. -/
theorem Ends.exchange (htail : Tail tail)
    (ends : Ends (behind closeBrace membersOf tail'))
    (h : Ends (membersOf (p ++ quote :: tail))) : Ends (membersOf (p ++ quote :: tail')) := by
  obtain ⟨ms, p', -, hread⟩ | ⟨front, hread⟩ | hread := (reader_cases p).2.1
  · obtain ⟨read, rest, hrest, hspace⟩ := h
    rw [hread] at hrest
    cases hrest
    obtain ⟨c, q, -, hskip⟩ | hskip := skipSpace_cases p'
    · cases (hskip tail).symm.trans hspace
    · cases (hskip tail).symm.trans hspace
  · rw [hread]
    exact (map_append front).mpr ends
  · obtain ⟨read, rest, hrest, -⟩ := h
    cases (hread tail htail).symm.trans hrest

/-- The text between quotes, as the value of a key, leaves an object. -/
def Spliced (key text : List UInt8) : Prop :=
  ∃ ms, parse (openBrace :: quote :: (key ++ quote :: colon :: space :: quote ::
    (text ++ [quote, closeBrace]))) = some (.object ms)

/-- The other members of an object do not matter to it. -/
theorem parse_spliced_iff (key text : List UInt8) (first : Member) (before after : List Member)
    (words : ∀ m ∈ after, Word m.key) :
    (∃ ms, parse (openBrace :: (first.text ++ (Member.others before ++ comma :: space :: quote ::
        (key ++ quote :: colon :: space :: quote :: (text ++ quote ::
          (Member.others after ++ [closeBrace, 0x0a])))))) = some (.object ms)) ↔
      Spliced key text := by
  have hnewline : Dead [0x0a] := dead_of_blank rfl
  have hnil : Dead [] := dead_of_blank rfl
  have hlone : Tail [closeBrace] := .close hnil List.not_mem_nil
  have hloneEnds : Ends (behind closeBrace membersOf [closeBrace]) := ⟨[], [], rfl, rfl⟩
  have hafter : Tail (Member.others after ++ [closeBrace, 0x0a]) ∧
      Ends (behind closeBrace membersOf (Member.others after ++ [closeBrace, 0x0a])) := by
    cases after with
    | nil => exact ⟨.close hnewline (by decide), [], [0x0a], rfl, rfl⟩
    | cons m ms =>
        exact ⟨.others m ms hnewline (words m List.mem_cons_self), _, [0x0a],
          behind_others m ms [0x0a], rfl⟩
  have htext : ∀ tail,
      quote :: (key ++ quote :: colon :: space :: quote :: (text ++ quote :: tail)) =
        (quote :: (key ++ quote :: colon :: space :: quote :: text)) ++ quote :: tail := by
    intro tail
    simp only [List.cons_append, List.append_assoc]
  rw [Spliced, parse_object_iff, htext, Member.text_append, parse_object_iff, ← Member.text_append,
    membersOf_front, membersOf_space, Ends.map_append, htext]
  exact ⟨Ends.exchange hafter.1 hloneEnds, Ends.exchange hlone hafter.2⟩

/-- Bytes that stand for themselves, and escapes, are a string. -/
theorem Spliced.of_spells {key s text : List UInt8} (plain : key.all isPlain = true)
    (h : Spells s text) : Spliced key text := by
  refine (parse_object_iff _).mpr ⟨[(key, .string s)], [], ?_, rfl⟩
  have hvalue : ∀ n, value (n + 1) (space :: quote :: (text ++ [quote, closeBrace])) =
      some (.string s, [closeBrace]) := by
    intro n
    rw [value_space]
    exact value_string h
  rw [← members_fuel (Nat.le_add_right _ 2)]
  exact members_last (Spells.of_plain plain) (hvalue _)

end Object

end Json
