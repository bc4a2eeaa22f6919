import Coping.Library.CInt
import Mathlib.Data.List.TakeWhile
import Mathlib.Data.Nat.Digits.Defs

/-!
# Numbers in texts

`strtoul` and `strtol` skip white space, read a sign, a prefix and the digits of a base, and
leave the rest. `scan` does that over unbounded integers, and `strtoul` and `strtol` replace what
is out of range. `Numeral` tells what the number of a text is without reading it; a text that is
read up to its end is a numeral, and every numeral is.
-/

namespace CNumber

open CInt

/-- `isspace` in the locale of C. -/
def isSpace (c : UInt8) : Bool := c == 0x20 || (0x09 ≤ c && c ≤ 0x0d)

/-- Letters of either case follow the digits. -/
def digitValue (c : UInt8) : Option Nat :=
  if 0x30 ≤ c ∧ c ≤ 0x39 then some (c.toNat - 0x30)
  else if 0x41 ≤ c ∧ c ≤ 0x5a then some (c.toNat - 0x37)
  else if 0x61 ≤ c ∧ c ≤ 0x7a then some (c.toNat - 0x57)
  else none

def digit (base : Nat) (c : UInt8) : Option Nat := (digitValue c).filter (· < base)

inductive Sign where
  | absent
  | plus
  | minus
  deriving DecidableEq

def Sign.bytes : Sign → List UInt8
  | .absent => []
  | .plus => [0x2b]
  | .minus => [0x2d]

def Sign.apply : Sign → Nat → Int
  | .absent, n => n
  | .plus, n => n
  | .minus, n => -n

/-- `0x` and `0X`, in front of hexadecimal digits. -/
def IsPrefix (base : Nat) (pre : List UInt8) : Prop :=
  pre = [] ∨ base = 16 ∧ (pre = [0x30, 0x78] ∨ pre = [0x30, 0x58])

/-! ## Reading -/

def readSign (s : List UInt8) : Sign × List UInt8 :=
  if s.head? = some 0x2b then (.plus, s.tail)
  else if s.head? = some 0x2d then (.minus, s.tail)
  else (.absent, s)

/-- A prefix without a digit behind it is not read: its zero is a number. -/
def readPrefix (base : Nat) (s : List UInt8) : List UInt8 :=
  if base = 16 ∧ (s.take 2 = [0x30, 0x78] ∨ s.take 2 = [0x30, 0x58]) ∧
      ((s.drop 2).head?.bind (digit base)).isSome then s.drop 2
  else s

def readDigits (base : Nat) (n : Nat) : List UInt8 → Nat × List UInt8
  | [] => (n, [])
  | c :: s =>
    match digit base c with
    | some d => readDigits base (n * base + d) s
    | none => (n, c :: s)

/-- The number at the beginning of a text and what is behind it, if there is a number. -/
def scan (base : Nat) (s : List UInt8) : Option (Int × List UInt8) :=
  let signed := readSign (s.dropWhile isSpace)
  let numeral := readPrefix base signed.2
  if (numeral.head?.bind (digit base)).isSome then
    let read := readDigits base 0 numeral
    some (signed.1.apply read.1, read.2)
  else none

def ulongMax : Int := 18446744073709551615

def longMin : Int := -9223372036854775808

/-- A negative number is taken as the unsigned one that is congruent to it. -/
def saturateUlong (n : Int) : Int := if ulongMax < |n| then ulongMax else toUInt64 n

def saturateLong (n : Int) : Int :=
  if n < longMin then longMin else if longMax < n then longMax else n

theorem saturateUlong_of_le {n : Int} (h : |n| ≤ ulongMax) : saturateUlong n = toUInt64 n :=
  if_neg (Int.not_lt.mpr h)

theorem saturateLong_of_inLong {n : Int} (h : InLong n) : saturateLong n = n := by
  have hbelow : ¬n < longMin := Int.not_lt.mpr h.1
  rw [saturateLong, if_neg hbelow, if_neg (Int.not_lt.mpr h.2)]

/-- The result, and the text at `endptr`. Without a number that is the whole text. -/
def convert (saturate : Int → Int) (base : Nat) (s : List UInt8) : Int × List UInt8 :=
  match scan base s with
  | some (n, rest) => (saturate n, rest)
  | none => (0, s)

def strtoul (base : Nat) (s : List UInt8) : Int × List UInt8 := convert saturateUlong base s

def strtol (base : Nat) (s : List UInt8) : Int × List UInt8 := convert saturateLong base s

/-! ## Numerals -/

/-- White space, a sign, a prefix and digits, the first of them the highest. -/
inductive Numeral (base : Nat) : List UInt8 → Int → Prop where
  | mk (spaces : List UInt8) (sign : Sign) (pre ds : List UInt8) (values : List Nat)
      (white : ∀ c ∈ spaces, isSpace c = true) (isPre : IsPrefix base pre)
      (digits : ds.map (digit base) = values.map some) (some_digit : values ≠ []) :
      Numeral base (spaces ++ sign.bytes ++ pre ++ ds)
        (sign.apply (Nat.ofDigits base values.reverse))

theorem ofDigits_reverse (base : Nat) (values : List Nat) :
    Nat.ofDigits base values.reverse = values.foldl (fun n d => n * base + d) 0 := by
  rw [Nat.ofDigits_eq_foldr, List.foldr_reverse]
  congr 1
  funext n d
  rw [Nat.cast_id, Nat.add_comm, Nat.mul_comm]

theorem readDigits_end_iff {base n m : Nat} {s : List UInt8} :
    readDigits base n s = (m, []) ↔
      ∃ values : List Nat, s.map (digit base) = values.map some ∧
        m = values.foldl (fun n d => n * base + d) n := by
  induction s generalizing n with
  | nil =>
      rw [readDigits]
      constructor
      · rintro ⟨⟩
        exact ⟨[], rfl, rfl⟩
      · rintro ⟨values, hvalues, rfl⟩
        rw [List.map_nil, eq_comm, List.map_eq_nil_iff] at hvalues
        rw [hvalues]
        rfl
  | cons c s ih =>
      rw [readDigits, List.map_cons]
      cases hc : digit base c with
      | none =>
          dsimp only
          constructor
          · intro h
            cases h
          · rintro ⟨values, hvalues, -⟩
            cases values <;> cases hvalues
      | some d =>
          dsimp only
          rw [ih]
          constructor
          · rintro ⟨values, hvalues, hm⟩
            exact ⟨d :: values, by rw [hvalues, List.map_cons], hm⟩
          · rintro ⟨values, hvalues, hm⟩
            cases values with
            | nil => cases hvalues
            | cons d' values =>
                rw [List.map_cons, List.cons.injEq, Option.some.injEq] at hvalues
                cases hvalues.1
                exact ⟨values, hvalues.2, hm⟩

/-! ## What is no digit -/

theorem le_of_digit {base : Nat} {c : UInt8} (h : (digit base c).isSome) : 0x30 ≤ c := by
  by_contra hlt
  have hbelow : c.toNat < 0x30 := by
    rw [UInt8.le_iff_toNat_le] at hlt
    exact Nat.lt_of_not_le hlt
  have hnone : digitValue c = none := by
    simp only [digitValue, UInt8.le_iff_toNat_le]
    rw [if_neg, if_neg, if_neg] <;>
    · rintro ⟨hle, -⟩
      exact absurd (Nat.le_trans (by decide) hle) (Nat.not_le.mpr hbelow)
  rw [digit, hnone] at h
  cases h

theorem not_isSpace_of_digit {base : Nat} {c : UInt8} (h : (digit base c).isSome) :
    isSpace c = false := by
  have hle := UInt8.le_iff_toNat_le.mp (le_of_digit h)
  have hspace : c ≠ 0x20 := by
    rintro rfl
    exact absurd hle (by decide)
  have hhigh : ¬c ≤ 0x0d := fun hc =>
    absurd (Nat.le_trans hle (UInt8.le_iff_toNat_le.mp hc)) (by decide)
  rw [isSpace, beq_false_of_ne hspace, decide_eq_false hhigh, Bool.and_false, Bool.or_false]

theorem head_of_digits {base : Nat} {ds : List UInt8} {values : List Nat}
    (digits : ds.map (digit base) = values.map some) (some_digit : values ≠ []) :
    ∃ c rest, ds = c :: rest ∧ (digit base c).isSome := by
  cases ds with
  | nil =>
      rw [List.map_nil, eq_comm, List.map_eq_nil_iff] at digits
      exact absurd digits some_digit
  | cons c rest =>
      cases values with
      | nil => cases digits
      | cons d values =>
          rw [List.map_cons, List.map_cons, List.cons.injEq] at digits
          exact ⟨c, rest, rfl, by rw [digits.1]; rfl⟩

/-! ## Reading up to the end -/

theorem readSign_split (s : List UInt8) : s = (readSign s).1.bytes ++ (readSign s).2 := by
  have htail : ∀ c, s.head? = some c → s = c :: s.tail := by
    intro c hc
    obtain ⟨rest, rfl⟩ := List.head?_eq_some_iff.mp hc
    rfl
  rw [readSign]
  split
  next hplus => exact htail _ hplus
  next =>
    split
    next hminus => exact htail _ hminus
    next => rfl

theorem readPrefix_split (base : Nat) (s : List UInt8) :
    ∃ pre, IsPrefix base pre ∧ s = pre ++ readPrefix base s := by
  rw [readPrefix]
  split
  next h => exact ⟨s.take 2, .inr ⟨h.1, h.2.1⟩, (List.take_append_drop 2 s).symm⟩
  next => exact ⟨[], .inl rfl, rfl⟩

theorem readSign_append {base : Nat} {c : UInt8} (h : (digit base c).isSome) (sign : Sign)
    (rest : List UInt8) : readSign (sign.bytes ++ c :: rest) = (sign, c :: rest) := by
  cases sign with
  | absent =>
      have hle := UInt8.le_iff_toNat_le.mp (le_of_digit h)
      have hplus : c ≠ 0x2b := by
        rintro rfl
        exact absurd hle (by decide)
      have hminus : c ≠ 0x2d := by
        rintro rfl
        exact absurd hle (by decide)
      rw [Sign.bytes, List.nil_append, readSign, List.head?_cons, if_neg, if_neg]
      · exact fun heq => hminus (Option.some.inj heq)
      · exact fun heq => hplus (Option.some.inj heq)
  | plus => rfl
  | minus => rfl

theorem readPrefix_append {base : Nat} {pre ds : List UInt8} {values : List Nat}
    (isPre : IsPrefix base pre) (digits : ds.map (digit base) = values.map some)
    (some_digit : values ≠ []) : readPrefix base (pre ++ ds) = ds := by
  obtain ⟨c, rest, hds, hc⟩ := head_of_digits digits some_digit
  rcases isPre with rfl | ⟨rfl, hpre⟩
  · -- The letter of a prefix is no digit.
    rw [List.nil_append, readPrefix, if_neg]
    rintro ⟨rfl, hprefix, -⟩
    have hsecond : ∀ x : UInt8, ds.take 2 = [0x30, x] → (digit 16 x).isSome := by
      intro x hx
      have hmem : x ∈ ds := List.mem_of_mem_take (by rw [hx]; simp)
      have hmap : digit 16 x ∈ values.map some := digits ▸ List.mem_map_of_mem hmem
      obtain ⟨d, -, hd⟩ := List.mem_map.mp hmap
      rw [← hd]
      rfl
    rcases hprefix with h | h
    · exact absurd (hsecond 0x78 h) (by decide)
    · exact absurd (hsecond 0x58 h) (by decide)
  · have hlength : pre.length = 2 := by rcases hpre with rfl | rfl <;> rfl
    have hdigit : (ds.head?.bind (digit 16)).isSome := by
      rw [hds]
      exact hc
    rw [readPrefix, List.take_left' hlength, List.drop_left' hlength, if_pos ⟨rfl, hpre, hdigit⟩]

/-- Behind white space and a sign there is a digit, the first of a prefix or of the number. -/
theorem head_of_prefix {base : Nat} {pre ds : List UInt8} {values : List Nat}
    (isPre : IsPrefix base pre) (digits : ds.map (digit base) = values.map some)
    (some_digit : values ≠ []) : ∃ c rest, pre ++ ds = c :: rest ∧ (digit base c).isSome := by
  rcases isPre with rfl | ⟨rfl, rfl | rfl⟩
  · exact head_of_digits digits some_digit
  · exact ⟨0x30, 0x78 :: ds, rfl, by decide⟩
  · exact ⟨0x30, 0x58 :: ds, rfl, by decide⟩

theorem dropWhile_spaces {base : Nat} {spaces : List UInt8} {c : UInt8}
    (white : ∀ c ∈ spaces, isSpace c = true) (h : (digit base c).isSome) (sign : Sign)
    (rest : List UInt8) :
    (spaces ++ (sign.bytes ++ c :: rest)).dropWhile isSpace = sign.bytes ++ c :: rest := by
  rw [List.dropWhile_append_of_pos white]
  cases sign with
  | absent =>
      exact List.dropWhile_cons_of_neg (by rw [not_isSpace_of_digit h]; exact Bool.false_ne_true)
  | plus => rfl
  | minus => rfl

/-- The texts that are read up to their end are the numerals. -/
theorem scan_end_iff {base : Nat} {s : List UInt8} {n : Int} :
    scan base s = some (n, []) ↔ Numeral base s n := by
  constructor
  · intro h
    rw [scan] at h
    dsimp only at h
    split at h
    next hhead =>
      obtain ⟨pre, hpre, hsplit⟩ := readPrefix_split base (readSign (s.dropWhile isSpace)).2
      have hsign := readSign_split (s.dropWhile isSpace)
      rw [Option.some.injEq, Prod.mk.injEq] at h
      obtain ⟨m, hread⟩ : ∃ m, readDigits base 0
          (readPrefix base (readSign (s.dropWhile isSpace)).2) = (m, []) := ⟨_, Prod.ext rfl h.2⟩
      obtain ⟨values, hvalues, hm⟩ := readDigits_end_iff.mp hread
      have hsome : values ≠ [] := by
        rintro rfl
        rw [List.map_nil, List.map_eq_nil_iff] at hvalues
        rw [hvalues] at hhead
        cases hhead
      have hs : s = s.takeWhile isSpace ++ (readSign (s.dropWhile isSpace)).1.bytes ++ pre ++
          readPrefix base (readSign (s.dropWhile isSpace)).2 := by
        rw [List.append_assoc, List.append_assoc, ← hsplit, ← hsign,
          List.takeWhile_append_dropWhile]
      rw [← h.1, hread, hm, ← ofDigits_reverse]
      have hnumeral := Numeral.mk (s.takeWhile isSpace) (readSign (s.dropWhile isSpace)).1 pre _
        values (fun _ hc => List.mem_takeWhile_imp hc) hpre hvalues hsome
      rwa [← hs] at hnumeral
    · cases h
  · rintro ⟨spaces, sign, pre, ds, values, white, isPre, digits, some_digit⟩
    obtain ⟨c, rest, hhead, hc⟩ := head_of_prefix isPre digits some_digit
    obtain ⟨c', rest', hds, hc'⟩ := head_of_digits digits some_digit
    have hread : readDigits base 0 ds = (values.foldl (fun n d => n * base + d) 0, []) :=
      readDigits_end_iff.mpr ⟨values, digits, rfl⟩
    rw [scan, List.append_assoc, List.append_assoc, hhead, dropWhile_spaces white hc,
      readSign_append hc]
    dsimp only
    rw [← hhead, readPrefix_append isPre digits some_digit, hread, ← ofDigits_reverse, if_pos]
    rw [hds]
    exact hc'

theorem Numeral.unique {base : Nat} {s : List UInt8} {n m : Int} (h : Numeral base s n)
    (h' : Numeral base s m) : n = m := by
  have hsame := (scan_end_iff.mpr h).symm.trans (scan_end_iff.mpr h')
  cases hsame
  rfl

theorem Numeral.ne_nil {base : Nat} {s : List UInt8} {n : Int} (h : Numeral base s n) : s ≠ [] := by
  obtain ⟨spaces, sign, pre, ds, values, white, isPre, digits, some_digit⟩ := h
  obtain ⟨c, rest, rfl, -⟩ := head_of_digits digits some_digit
  exact List.append_ne_nil_of_right_ne_nil _ (List.cons_ne_nil c rest)

/-! ## Conversions -/

variable (saturate : Int → Int) {base : Nat} {s : List UInt8}

theorem convert_nil (base : Nat) : convert saturate base [] = (0, []) := by
  have hprefix : readPrefix base [] = [] := if_neg fun h => Bool.false_ne_true h.2.2
  have hscan : scan base [] = none := by
    rw [scan]
    simp only [List.dropWhile_nil, readSign, List.head?_nil, reduceCtorEq, if_false, hprefix]
    exact if_neg Bool.false_ne_true
  rw [convert, hscan]

theorem convert_numeral {n : Int} (h : Numeral base s n) :
    convert saturate base s = (saturate n, []) := by
  rw [convert, scan_end_iff.mpr h]

/-- A text that is no numeral is not read up to its end. -/
theorem convert_other (nonempty : s ≠ []) (none : ∀ n, ¬Numeral base s n) :
    (convert saturate base s).2 ≠ [] := by
  rw [convert]
  cases hscan : scan base s with
  | none => exact nonempty
  | some read =>
      intro hend
      have hread : read = (read.1, []) := Prod.ext rfl hend
      rw [hread] at hscan
      exact none read.1 (scan_end_iff.mp hscan)

end CNumber
