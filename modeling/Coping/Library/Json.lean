import Mathlib.Data.List.Basic
import Coping.Library.CFormat

/-!
# JSON texts

A reader for JSON texts over bytes. Bytes from `0x80` on are opaque inside strings;
everything else is read as RFC 8259 has it, an escape as the UTF-8 bytes of its
character. `parse` is total: its fuel bounds the nesting, and the text is long enough
for every value it can hold.

`Spells s text` says that `text`, between quotes, is a way to write the string `s`.
The rules at the end read one construct each, so that the value of a text that a
program puts together is found piece by piece.
-/

namespace Json

inductive Value where
  | null
  | bool (b : Bool)
  /-- A number as it is written. -/
  | number (text : List UInt8)
  | string (s : List UInt8)
  | array (items : List Value)
  | object (members : List (List UInt8 × Value))

/-- The first member with this key. -/
def Value.field (key : List UInt8) : Value → Option Value
  | .object members => (members.find? fun m => m.1 == key).map (·.2)
  | _ => none

def Value.item (i : Nat) : Value → Option Value
  | .array items => items[i]?
  | _ => none

def Value.text : Value → Option (List UInt8)
  | .string s => some s
  | _ => none

/-- A number that is written without a fraction and an exponent. -/
def Value.int : Value → Option Int
  | .number text => some (CFormat.intOfDecimal text)
  | _ => none

/-! ## Characters -/

def quote : UInt8 := 0x22

def backslash : UInt8 := 0x5c

def comma : UInt8 := 0x2c

def colon : UInt8 := 0x3a

def openBrace : UInt8 := 0x7b

def closeBrace : UInt8 := 0x7d

def openBracket : UInt8 := 0x5b

def closeBracket : UInt8 := 0x5d

def isSpace (c : UInt8) : Bool := c == 0x20 || c == 0x09 || c == 0x0a || c == 0x0d

def skipSpace (bytes : List UInt8) : List UInt8 := bytes.dropWhile isSpace

/-- The bytes behind one given character, space before it skipped. -/
def expect (c : UInt8) (bytes : List UInt8) : Option (List UInt8) :=
  match skipSpace bytes with
  | b :: rest => if b = c then some rest else none
  | [] => none

/-- A byte that stands for itself in a string. -/
def isPlain (c : UInt8) : Bool := c != quote && c != backslash && 0x20 ≤ c

/-! ## Strings -/

def hexDigit (c : UInt8) : Option Nat :=
  if 0x30 ≤ c ∧ c ≤ 0x39 then some (c.toNat - 0x30)
  else if 0x61 ≤ c ∧ c ≤ 0x66 then some (c.toNat - 0x61 + 10)
  else if 0x41 ≤ c ∧ c ≤ 0x46 then some (c.toNat - 0x41 + 10)
  else none

/-- Four hexadecimal digits. -/
def codeUnit : List UInt8 → Option (Nat × List UInt8)
  | a :: b :: c :: d :: rest => do
      let a ← hexDigit a
      let b ← hexDigit b
      let c ← hexDigit c
      let d ← hexDigit d
      some (((a * 16 + b) * 16 + c) * 16 + d, rest)
  | _ => none

def utf8 (code : Nat) : List UInt8 :=
  if code < 0x80 then [UInt8.ofNat code]
  else if code < 0x800 then [UInt8.ofNat (0xc0 + code / 64), UInt8.ofNat (0x80 + code % 64)]
  else if code < 0x10000 then
    [UInt8.ofNat (0xe0 + code / 4096), UInt8.ofNat (0x80 + code / 64 % 64),
      UInt8.ofNat (0x80 + code % 64)]
  else
    [UInt8.ofNat (0xf0 + code / 262144), UInt8.ofNat (0x80 + code / 4096 % 64),
      UInt8.ofNat (0x80 + code / 64 % 64), UInt8.ofNat (0x80 + code % 64)]

/-- A character written with hexadecimal digits. A high surrogate needs a low one
behind it, and a low one may not stand alone. -/
def unicode (bytes : List UInt8) : Option (List UInt8 × List UInt8) := do
  let (unit, rest) ← codeUnit bytes
  if unit < 0xd800 ∨ 0xdfff < unit then some (utf8 unit, rest)
  else if 0xdc00 ≤ unit then none
  else
    match rest with
    | b :: u :: rest => do
        let (low, rest) ← codeUnit rest
        if b = backslash ∧ u = 0x75 ∧ 0xdc00 ≤ low ∧ low ≤ 0xdfff then
          some (utf8 (0x10000 + (unit - 0xd800) * 0x400 + (low - 0xdc00)), rest)
        else none
    | _ => none

/-- What an escape stands for, read from behind its backslash. -/
def escapeSequence : List UInt8 → Option (List UInt8 × List UInt8)
  | [] => none
  | c :: rest =>
      if c = quote ∨ c = backslash ∨ c = 0x2f then some ([c], rest)
      else if c = 0x62 then some ([0x08], rest)
      else if c = 0x66 then some ([0x0c], rest)
      else if c = 0x6e then some ([0x0a], rest)
      else if c = 0x72 then some ([0x0d], rest)
      else if c = 0x74 then some ([0x09], rest)
      else if c = 0x75 then unicode rest
      else none

/-- A string from behind its opening quote to its closing one. -/
def stringTail : Nat → List UInt8 → Option (List UInt8 × List UInt8)
  | 0, _ => none
  | _ + 1, [] => none
  | n + 1, c :: rest =>
      if c = quote then some ([], rest)
      else if c = backslash then do
        let (meant, rest) ← escapeSequence rest
        let (s, rest) ← stringTail n rest
        some (meant ++ s, rest)
      else if c < 0x20 then none
      else do
        let (s, rest) ← stringTail n rest
        some (c :: s, rest)

def string (bytes : List UInt8) : Option (List UInt8 × List UInt8) :=
  stringTail (bytes.length + 1) bytes

/-! ## Numbers -/

def isDigit (c : UInt8) : Bool := 0x30 ≤ c && c ≤ 0x39

def digits (bytes : List UInt8) : List UInt8 × List UInt8 :=
  (bytes.takeWhile isDigit, bytes.dropWhile isDigit)

/-- A sign, when it is one of those given. -/
def sign (signs : List UInt8) : List UInt8 → List UInt8 × List UInt8
  | c :: rest => if c ∈ signs then ([c], rest) else ([], c :: rest)
  | [] => ([], [])

/-- A fraction or an exponent: nothing, or its mark, a sign and digits. -/
def part (marks signs : List UInt8) : List UInt8 → Option (List UInt8 × List UInt8)
  | [] => some ([], [])
  | c :: rest =>
      if c ∈ marks then
        let (s, rest) := sign signs rest
        let (ds, rest) := digits rest
        if ds = [] then none else some (c :: s ++ ds, rest)
      else some ([], c :: rest)

def number (bytes : List UInt8) : Option (List UInt8 × List UInt8) := do
  let (minus, rest) := sign [0x2d] bytes
  let (whole, rest) := digits rest
  if whole = [] ∨ (whole.head? = some 0x30 ∧ whole.length ≠ 1) then none
  else
    let (fraction, rest) ← part [0x2e] [] rest
    let (exponent, rest) ← part [0x65, 0x45] [0x2b, 0x2d] rest
    some (minus ++ whole ++ fraction ++ exponent, rest)

/-! ## Values -/

def literal (word : List UInt8) (v : Value) (bytes : List UInt8) : Option (Value × List UInt8) :=
  if word.isPrefixOf bytes then some (v, bytes.drop word.length) else none

mutual

def value : Nat → List UInt8 → Option (Value × List UInt8)
  | 0, _ => none
  | n + 1, bytes =>
      match skipSpace bytes with
      | [] => none
      | c :: rest =>
          if c = quote then (string rest).map fun (s, rest) => (.string s, rest)
          else if c = openBrace then
            match expect closeBrace rest with
            | some rest => some (.object [], rest)
            | none => (members n rest).map fun (ms, rest) => (.object ms, rest)
          else if c = openBracket then
            match expect closeBracket rest with
            | some rest => some (.array [], rest)
            | none => (items n rest).map fun (vs, rest) => (.array vs, rest)
          else if c = 0x6e then literal [0x6e, 0x75, 0x6c, 0x6c] .null (c :: rest)
          else if c = 0x74 then literal [0x74, 0x72, 0x75, 0x65] (.bool true) (c :: rest)
          else if c = 0x66 then literal [0x66, 0x61, 0x6c, 0x73, 0x65] (.bool false) (c :: rest)
          else (number (c :: rest)).map fun (text, rest) => (.number text, rest)

/-- The members of an object, up to its closing brace. -/
def members : Nat → List UInt8 → Option (List (List UInt8 × Value) × List UInt8)
  | 0, _ => none
  | n + 1, bytes => do
      let rest ← expect quote bytes
      let (key, rest) ← string rest
      let rest ← expect colon rest
      let (v, rest) ← value n rest
      match expect comma rest with
      | some rest => do
          let (ms, rest) ← members n rest
          some ((key, v) :: ms, rest)
      | none => do
          let rest ← expect closeBrace rest
          some ([(key, v)], rest)

/-- The items of an array, up to its closing bracket. -/
def items : Nat → List UInt8 → Option (List Value × List UInt8)
  | 0, _ => none
  | n + 1, bytes => do
      let (v, rest) ← value n bytes
      match expect comma rest with
      | some rest => do
          let (vs, rest) ← items n rest
          some (v :: vs, rest)
      | none => do
          let rest ← expect closeBracket rest
          some ([v], rest)

end

/-- The value of a text that holds nothing else. -/
def parse (bytes : List UInt8) : Option Value := do
  let (v, rest) ← value (bytes.length + 1) bytes
  if skipSpace rest = [] then some v else none

/-! ## Ways to write a string -/

/-- `Spells s text`: between quotes, `text` is read as the string `s`. -/
inductive Spells : List UInt8 → List UInt8 → Prop where
  | nil : Spells [] []
  | plain {c : UInt8} {s text : List UInt8} (h : isPlain c = true) (rest : Spells s text) :
      Spells (c :: s) (c :: text)
  | escape {meant written s text : List UInt8}
      (h : ∀ bytes, escapeSequence (written ++ bytes) = some (meant, bytes))
      (rest : Spells s text) : Spells (meant ++ s) (backslash :: written ++ text)

theorem Spells.append {s s' text text' : List UInt8} (h : Spells s text) (h' : Spells s' text') :
    Spells (s ++ s') (text ++ text') := by
  induction h with
  | nil => exact h'
  | plain hc _ ih => exact .plain hc ih
  | escape hwritten _ ih =>
      rw [List.append_assoc, List.append_assoc]
      exact .escape hwritten ih

/-- Bytes that stand for themselves. -/
theorem Spells.of_plain {s : List UInt8} (h : s.all isPlain = true) : Spells s s := by
  induction s with
  | nil => exact .nil
  | cons c s ih =>
      obtain ⟨hc, hs⟩ := Bool.and_eq_true_iff.mp (List.all_cons.symm.trans h)
      exact .plain hc (ih hs)

theorem Spells.singleton {meant written : List UInt8}
    (h : ∀ bytes, escapeSequence (written ++ bytes) = some (meant, bytes)) :
    Spells meant (backslash :: written) := by
  have hone := Spells.escape h .nil
  rwa [List.append_nil, List.append_nil] at hone

theorem isPlain_iff {c : UInt8} :
    isPlain c = true ↔ c ≠ quote ∧ c ≠ backslash ∧ ¬c < 0x20 := by
  simp [isPlain, and_assoc]

/-- A spelled string is read up to the quote behind it. -/
theorem stringTail_of_spells {s text : List UInt8} (h : Spells s text) (rest : List UInt8) {n : Nat}
    (fuel : text.length < n) : stringTail n (text ++ quote :: rest) = some (s, rest) := by
  induction h generalizing n with
  | nil =>
      obtain ⟨n, rfl⟩ := Nat.exists_eq_add_of_lt fuel
      rfl
  | @plain c s text hc _ ih =>
      obtain ⟨n, rfl⟩ := Nat.exists_eq_add_of_lt (Nat.lt_of_le_of_lt (Nat.zero_le _) fuel)
      obtain ⟨hquote, hbackslash, hcontrol⟩ := isPlain_iff.mp hc
      rw [Nat.zero_add] at fuel ⊢
      rw [List.cons_append, stringTail, if_neg hquote, if_neg hbackslash, if_neg hcontrol,
        ih (Nat.lt_of_succ_lt_succ fuel)]
      rfl
  | @escape meant written s text hwritten _ ih =>
      obtain ⟨n, rfl⟩ := Nat.exists_eq_add_of_lt (Nat.lt_of_le_of_lt (Nat.zero_le _) fuel)
      rw [Nat.zero_add] at fuel ⊢
      have hfuel : text.length < n := by
        rw [List.length_append, List.length_cons] at fuel
        omega
      rw [List.append_assoc, List.cons_append, stringTail, if_neg (by decide), if_pos rfl,
        hwritten]
      change ((stringTail n (text ++ quote :: rest)).bind fun x => some (meant ++ x.1, x.2)) = _
      rw [ih hfuel]
      rfl

theorem string_of_spells {s text : List UInt8} (h : Spells s text) (rest : List UInt8) :
    string (text ++ quote :: rest) = some (s, rest) :=
  stringTail_of_spells h rest (by rw [List.length_append]; omega)

/-! ### What is read where -/

/-- A closed escape: its bytes are all hexadecimal digits and the like, apart from an
escaped quote, and it is not shorter than what it stands for. -/
structure Closed (meant written : List UInt8) : Prop where
  reads : ∀ bytes, escapeSequence (written ++ bytes) = some (meant, bytes)
  shrinks : meant.length ≤ written.length
  quoted : quote ∈ written → written = [quote] ∧ meant = [quote]

theorem length_utf8_le (code : Nat) : (utf8 code).length ≤ 4 := by
  rw [utf8]
  repeat' split
  · exact Nat.le_add_left 1 3
  · exact Nat.le_add_left 2 2
  · exact Nat.le_add_left 3 1
  · exact Nat.le_refl 4

theorem ne_quote_of_hexDigit {c : UInt8} {d : Nat} (h : hexDigit c = some d) : c ≠ quote := by
  rintro rfl
  cases h

/-- Four digits are read from the four bytes that are there, none of them a quote. -/
theorem codeUnit_cases {bytes rest : List UInt8} {unit : Nat}
    (h : codeUnit bytes = some (unit, rest)) :
    ∃ written, bytes = written ++ rest ∧ written.length = 4 ∧ quote ∉ written ∧
      ∀ bytes, codeUnit (written ++ bytes) = some (unit, bytes) := by
  obtain ⟨a, b, c, d, tail, rfl⟩ : ∃ a b c d tail, bytes = a :: b :: c :: d :: tail := by
    rcases bytes with _ | ⟨a, _ | ⟨b, _ | ⟨c, _ | ⟨d, tail⟩⟩⟩⟩
    · cases h
    · cases h
    · cases h
    · cases h
    · exact ⟨a, b, c, d, tail, rfl⟩
  simp only [codeUnit, Option.bind_eq_bind, Option.bind_eq_some_iff, Option.some.injEq,
    Prod.mk.injEq] at h
  obtain ⟨x, hx, y, hy, z, hz, w, hw, rfl, rfl⟩ := h
  refine ⟨[a, b, c, d], rfl, rfl, ?_, ?_⟩
  · simp only [List.mem_cons, List.not_mem_nil, or_false, not_or]
    exact ⟨(ne_quote_of_hexDigit hx).symm, (ne_quote_of_hexDigit hy).symm,
      (ne_quote_of_hexDigit hz).symm, (ne_quote_of_hexDigit hw).symm⟩
  · intro bytes
    change (do
      let a ← hexDigit a
      let b ← hexDigit b
      let c ← hexDigit c
      let d ← hexDigit d
      some (((a * 16 + b) * 16 + c) * 16 + d, bytes)) = _
    rw [hx, hy, hz, hw]
    rfl

theorem unicode_cases {bytes rest meant : List UInt8} (h : unicode bytes = some (meant, rest)) :
    ∃ written, bytes = written ++ rest ∧ meant.length ≤ written.length ∧ quote ∉ written ∧
      ∀ bytes, unicode (written ++ bytes) = some (meant, bytes) := by
  simp only [unicode, Option.bind_eq_bind, Option.bind_eq_some_iff] at h
  obtain ⟨⟨unit, behind⟩, hunit, h⟩ := h
  obtain ⟨high, rfl, hlength, hquote, hreads⟩ := codeUnit_cases hunit
  dsimp only at h
  by_cases hsingle : unit < 0xd800 ∨ 0xdfff < unit
  · rw [if_pos hsingle] at h
    cases h
    refine ⟨high, rfl, hlength ▸ length_utf8_le unit, hquote, ?_⟩
    intro bytes
    simp only [unicode, hreads, Option.bind_eq_bind, Option.bind_some]
    rw [if_pos hsingle]
  rw [if_neg hsingle] at h
  by_cases hlow : 0xdc00 ≤ unit
  · rw [if_pos hlow] at h
    cases h
  rw [if_neg hlow] at h
  -- A high surrogate: a second escape follows.
  rcases behind with _ | ⟨b, _ | ⟨u, behind⟩⟩
  · cases h
  · cases h
  simp only [Option.bind_eq_some_iff] at h
  obtain ⟨⟨second, last⟩, hsecond, h⟩ := h
  obtain ⟨low, rfl, hlength', hquote', hreads'⟩ := codeUnit_cases hsecond
  dsimp only at h
  split at h
  next hpair =>
    simp only [Option.some.injEq, Prod.mk.injEq] at h
    obtain ⟨rfl, rfl⟩ := h
    obtain ⟨rfl, rfl, hrange⟩ := hpair
    refine ⟨high ++ backslash :: 0x75 :: low, by rw [List.append_assoc]; rfl, ?_, ?_, ?_⟩
    · have := length_utf8_le (0x10000 + (unit - 0xd800) * 0x400 + (second - 0xdc00))
      rw [List.length_append]
      omega
    · rw [List.mem_append, not_or, List.mem_cons, List.mem_cons, not_or, not_or]
      exact ⟨hquote, by decide, by decide, hquote'⟩
    · intro bytes
      simp only [unicode, hreads, hreads', List.append_assoc, List.cons_append,
        Option.bind_eq_bind, Option.bind_some]
      rw [if_neg hsingle, if_neg hlow, if_pos ⟨trivial, trivial, hrange⟩]
  · cases h

/-- Every escape that is read is a closed one. -/
theorem escapeSequence_cases {bytes rest meant : List UInt8}
    (h : escapeSequence bytes = some (meant, rest)) :
    ∃ written, bytes = written ++ rest ∧ Closed meant written := by
  cases bytes with
  | nil => cases h
  | cons c bytes =>
      have single : ∀ d, (∀ bytes, escapeSequence (c :: bytes) = some ([d], bytes)) →
          (c = quote → d = quote) → ∃ written, c :: bytes = written ++ rest ∧
            Closed meant written := by
        intro d hreads hquote
        rw [hreads] at h
        cases h
        refine ⟨[c], rfl, hreads, Nat.le_refl 1, ?_⟩
        intro hmem
        have hc := (List.mem_singleton.mp hmem).symm
        exact ⟨by rw [hc], by rw [hquote hc]⟩
      by_cases hself : c = quote ∨ c = backslash ∨ c = 0x2f
      · exact single c (fun bytes => by rw [escapeSequence, if_pos hself]) id
      have hquote : c ≠ quote := fun hc => hself (.inl hc)
      by_cases hb : c = 0x62
      · exact single 0x08 (fun bytes => by subst hb; rfl) (fun hc => absurd hc hquote)
      by_cases hf : c = 0x66
      · exact single 0x0c (fun bytes => by subst hf; rfl) (fun hc => absurd hc hquote)
      by_cases hn : c = 0x6e
      · exact single 0x0a (fun bytes => by subst hn; rfl) (fun hc => absurd hc hquote)
      by_cases hr : c = 0x72
      · exact single 0x0d (fun bytes => by subst hr; rfl) (fun hc => absurd hc hquote)
      by_cases ht : c = 0x74
      · exact single 0x09 (fun bytes => by subst ht; rfl) (fun hc => absurd hc hquote)
      rw [escapeSequence, if_neg hself, if_neg hb, if_neg hf, if_neg hn, if_neg hr,
        if_neg ht] at h
      by_cases hu : c = 0x75
      · rw [if_pos hu] at h
        obtain ⟨written, rfl, hlength, hmem, hreads⟩ := unicode_cases h
        subst hu
        refine ⟨0x75 :: written, rfl, hreads, Nat.le_succ_of_le hlength, ?_⟩
        intro hmem'
        rcases List.mem_cons.mp hmem' with hc | hmem'
        · exact absurd hc (by decide)
        · exact absurd hmem' hmem
      · rw [if_neg hu] at h
        cases h

/-- A string ends at the quote behind a text that spells it with closed escapes. -/
inductive Read : List UInt8 → List UInt8 → Prop where
  | nil : Read [] []
  | plain {c : UInt8} {s text : List UInt8} (h : isPlain c = true) (rest : Read s text) :
      Read (c :: s) (c :: text)
  | escape {meant written s text : List UInt8} (h : Closed meant written) (rest : Read s text) :
      Read (meant ++ s) (backslash :: (written ++ text))

theorem read_of_stringTail {n : Nat} {bytes s rest : List UInt8}
    (h : stringTail n bytes = some (s, rest)) :
    ∃ text, bytes = text ++ quote :: rest ∧ Read s text := by
  induction n generalizing bytes s rest with
  | zero => cases h
  | succ n ih =>
      cases bytes with
      | nil => cases h
      | cons c bytes =>
          rw [stringTail] at h
          by_cases hquote : c = quote
          · rw [if_pos hquote] at h
            cases h
            exact ⟨[], by rw [hquote]; rfl, .nil⟩
          rw [if_neg hquote] at h
          by_cases hbackslash : c = backslash
          · rw [if_pos hbackslash] at h
            simp only [Option.bind_eq_bind, Option.bind_eq_some_iff] at h
            obtain ⟨⟨meant, behind⟩, hescape, ⟨s', rest'⟩, htail, h⟩ := h
            cases h
            obtain ⟨written, rfl, hclosed⟩ := escapeSequence_cases hescape
            obtain ⟨text, rfl, hread⟩ := ih htail
            refine ⟨backslash :: (written ++ text), ?_, .escape hclosed hread⟩
            rw [hbackslash, List.cons_append, List.append_assoc]
          rw [if_neg hbackslash] at h
          by_cases hcontrol : c < 0x20
          · rw [if_pos hcontrol] at h
            cases h
          rw [if_neg hcontrol] at h
          simp only [Option.bind_eq_bind, Option.bind_eq_some_iff] at h
          obtain ⟨⟨s', rest'⟩, htail, h⟩ := h
          cases h
          obtain ⟨text, rfl, hread⟩ := ih htail
          exact ⟨c :: text, rfl, .plain (isPlain_iff.mpr ⟨hquote, hbackslash, hcontrol⟩) hread⟩

theorem Read.length_le {s text : List UInt8} (h : Read s text) : s.length ≤ text.length := by
  induction h with
  | nil => exact Nat.le_refl 0
  | plain _ _ ih => exact Nat.succ_le_succ ih
  | @escape meant written s text hclosed _ ih =>
      have := hclosed.shrinks
      rw [List.length_append, List.length_cons, List.length_append]
      omega

/-- A text that is as long as its string is the string, and plain. -/
theorem Read.plain_of_length {s text : List UInt8} (h : Read s text)
    (same : text.length ≤ s.length) : text = s ∧ s.all isPlain = true := by
  induction h with
  | nil => exact ⟨rfl, rfl⟩
  | plain hc _ ih =>
      obtain ⟨rfl, hall⟩ := ih (Nat.le_of_succ_le_succ same)
      exact ⟨rfl, by rw [List.all_cons, hc, hall]; rfl⟩
  | @escape meant written s text hclosed hread _ =>
      have hshrinks := hclosed.shrinks
      have hlength := hread.length_le
      rw [List.length_append, List.length_cons, List.length_append] at same
      omega

/-- A quote in the text stands for one that comes earlier in the string. -/
theorem Read.quote_earlier {s text : List UInt8} (h : Read s text) {i : Nat}
    (at_ : text[i]? = some quote) : ∃ j < i, s[j]? = some quote := by
  induction h generalizing i with
  | nil => cases at_
  | @plain c s text hc _ ih =>
      cases i with
      | zero =>
          cases at_
          exact absurd hc (by decide)
      | succ i =>
          obtain ⟨j, hj, hs⟩ := ih at_
          exact ⟨j + 1, Nat.succ_lt_succ hj, hs⟩
  | @escape meant written s text hclosed _ ih =>
      cases i with
      | zero => cases at_
      | succ i =>
          rw [List.getElem?_cons_succ] at at_
          by_cases hinside : i < written.length
          · rw [List.getElem?_append_left hinside] at at_
            obtain ⟨-, rfl⟩ := hclosed.quoted (List.mem_of_getElem? at_)
            exact ⟨0, Nat.succ_pos i, rfl⟩
          · rw [List.getElem?_append_right (Nat.le_of_not_lt hinside)] at at_
            obtain ⟨j, hj, hs⟩ := ih at_
            have hshrinks := hclosed.shrinks
            refine ⟨meant.length + j, by omega, ?_⟩
            rw [List.getElem?_append_right (Nat.le_add_right _ _), Nat.add_sub_cancel_left]
            exact hs

/-- A string that reads as itself is plain, whatever stands behind it. Every quote before
its end would be read as an escape of an earlier one. -/
theorem plain_of_string {s rest rest' : List UInt8}
    (h : string (s ++ quote :: rest) = some (s, rest')) :
    s.all isPlain = true ∧ rest' = rest := by
  obtain ⟨text, htext, hread⟩ := read_of_stringTail h
  have hle := hread.length_le
  have hsame : ∀ i : Nat, i < text.length → text[i]? = (s ++ quote :: rest)[i]? := by
    intro i hi
    rw [htext, List.getElem?_append_left hi]
  have hquote : ∀ i : Nat, s[i]? ≠ some quote := by
    intro i
    induction i using Nat.strongRecOn with
    | ind i ih =>
      intro hs
      have hi : i < s.length := (List.getElem?_eq_some_iff.mp hs).1
      have htexti : text[i]? = some quote := by
        rw [hsame i (by omega), List.getElem?_append_left hi, hs]
      obtain ⟨j, hj, hsj⟩ := hread.quote_earlier htexti
      exact ih j hj hsj
  have hlength : text.length ≤ s.length := by
    by_contra hlonger
    have hend : text[s.length]? = some quote := by
      rw [hsame s.length (by omega), List.getElem?_append_right (Nat.le_refl _), Nat.sub_self]
      rfl
    obtain ⟨j, -, hsj⟩ := hread.quote_earlier hend
    exact hquote j hsj
  obtain ⟨rfl, hplain⟩ := hread.plain_of_length hlength
  have htail := List.append_cancel_left htext
  exact ⟨hplain, (List.cons.inj htail).2.symm⟩

/-! ## Reading one construct -/

section Read

variable {n : Nat} {bytes rest rest' key s text : List UInt8} {v : Value} {vs : List Value}
variable {ms : List (List UInt8 × Value)}

theorem expect_cons {c : UInt8} (h : isSpace c = false) : expect c (c :: rest) = some rest := by
  rw [expect, skipSpace, List.dropWhile_cons_of_neg (by rw [h]; decide)]
  exact if_pos rfl

theorem expect_other {b c : UInt8} (space : isSpace b = false) (other : b ≠ c) :
    expect c (b :: rest) = none := by
  rw [expect, skipSpace, List.dropWhile_cons_of_neg (by rw [space]; decide)]
  exact if_neg other

theorem value_string (h : Spells s text) :
    value (n + 1) (quote :: (text ++ quote :: rest)) = some (.string s, rest) := by
  change (string (text ++ quote :: rest)).map _ = _
  rw [string_of_spells h]
  rfl

/-- A string value that reads as its own text is plain. -/
theorem plain_of_value (h : value n (quote :: (s ++ quote :: rest)) = some (.string s, rest')) :
    s.all isPlain = true ∧ rest' = rest := by
  cases n with
  | zero => cases h
  | succ n =>
      change (string (s ++ quote :: rest)).map _ = _ at h
      obtain ⟨⟨read, behind⟩, hstring, h⟩ := Option.map_eq_some_iff.mp h
      cases h
      exact plain_of_string hstring

theorem value_openBrace (n : Nat) (skip : skipSpace bytes = openBrace :: tail) :
    value (n + 1) bytes =
      match expect closeBrace tail with
      | some rest => some (.object [], rest)
      | none => (members n tail).map fun (ms, rest) => (.object ms, rest) := by
  rw [value, skip]
  rfl

theorem value_object_eq (n : Nat) (bytes : List UInt8) :
    value (n + 1) (openBrace :: quote :: bytes) =
      (members n (quote :: bytes)).map fun (ms, rest) => (.object ms, rest) := by
  rw [value_openBrace n rfl, expect_other (by decide) (by decide)]

theorem value_object (h : members n (quote :: bytes) = some (ms, rest)) :
    value (n + 1) (openBrace :: quote :: bytes) = some (.object ms, rest) := by
  rw [value_object_eq, h]
  rfl

theorem value_array_eq (n : Nat) (bytes : List UInt8) {b : UInt8} (space : isSpace b = false)
    (other : b ≠ closeBracket) :
    value (n + 1) (openBracket :: b :: bytes) =
      (items n (b :: bytes)).map fun (vs, rest) => (.array vs, rest) := by
  change (match expect closeBracket (b :: bytes) with
    | some rest => some (Value.array [], rest)
    | none => (items n (b :: bytes)).map fun (vs, rest) => (Value.array vs, rest)) = _
  rw [expect_other space other]

theorem value_array {b : UInt8} (space : isSpace b = false) (other : b ≠ closeBracket)
    (h : items n (b :: bytes) = some (vs, rest)) :
    value (n + 1) (openBracket :: b :: bytes) = some (.array vs, rest) := by
  rw [value_array_eq n bytes space other, h]
  rfl

theorem members_cons (spelled : Spells key text) (first : value n bytes = some (v, comma :: rest))
    (others : members n rest = some (ms, rest')) :
    members (n + 1) (quote :: (text ++ quote :: colon :: bytes)) =
      some ((key, v) :: ms, rest') := by
  rw [members, expect_cons (by decide)]
  simp only [Option.bind_eq_bind, Option.bind_some, string_of_spells spelled,
    @expect_cons bytes colon (by decide), first, @expect_cons rest comma (by decide), others]

theorem members_last (spelled : Spells key text)
    (last : value n bytes = some (v, closeBrace :: rest)) :
    members (n + 1) (quote :: (text ++ quote :: colon :: bytes)) = some ([(key, v)], rest) := by
  rw [members, expect_cons (by decide)]
  simp only [Option.bind_eq_bind, Option.bind_some, string_of_spells spelled,
    @expect_cons bytes colon (by decide), last,
    @expect_other rest closeBrace comma (by decide) (by decide),
    @expect_cons rest closeBrace (by decide)]

/-! ### Space -/

def space : UInt8 := 0x20

theorem value_space (n : Nat) (bytes : List UInt8) : value n (space :: bytes) = value n bytes := by
  cases n <;> rfl

theorem members_space (n : Nat) (bytes : List UInt8) :
    members n (space :: bytes) = members n bytes := by
  cases n <;> rfl

theorem items_space (n : Nat) (bytes : List UInt8) : items n (space :: bytes) = items n bytes := by
  cases n with
  | zero => rfl
  | succ n => rw [items, items, value_space]

/-! ### Numbers -/

/-- A byte that ends a number. -/
def isStop (c : UInt8) : Bool := !isDigit c && c != 0x2e && c != 0x65 && c != 0x45

theorem part_stop {marks signs : List UInt8} {c : UInt8} (other : c ∉ marks) :
    part marks signs (c :: rest) = some ([], c :: rest) := by
  rw [part, if_neg other]

theorem digits_eq {ds : List UInt8} {c : UInt8} (all : ds.all isDigit = true)
    (stop : isDigit c = false) : digits (ds ++ c :: rest) = (ds, c :: rest) := by
  have hall : ∀ d ∈ ds, isDigit d = true := List.all_eq_true.mp all
  rw [digits, List.takeWhile_append_of_pos hall, List.dropWhile_append_of_pos hall,
    List.takeWhile_cons_of_neg (by rw [stop]; decide),
    List.dropWhile_cons_of_neg (by rw [stop]; decide), List.append_nil]

theorem number_digits (rest : List UInt8) {d : UInt8} {ds minus : List UInt8} {c : UInt8}
    (signed : minus = [] ∨ minus = [0x2d]) (all : (d :: ds).all isDigit = true)
    (leading : d = 0x30 → ds = []) (stop : isStop c = true) :
    number (minus ++ d :: ds ++ c :: rest) = some (minus ++ d :: ds, c :: rest) := by
  simp only [isStop, Bool.and_eq_true, Bool.not_eq_true', bne_iff_ne] at stop
  obtain ⟨⟨⟨hdigit, hpoint⟩, hlower⟩, hupper⟩ := stop
  have hsign : sign [0x2d] (minus ++ d :: ds ++ c :: rest) = (minus, d :: ds ++ c :: rest) := by
    rcases signed with rfl | rfl
    · have hd : d ≠ 0x2d := by
        rintro rfl
        cases all
      rw [List.nil_append, List.cons_append, sign, if_neg (by rwa [List.mem_singleton])]
    · rfl
  have hwhole : ¬(d :: ds = [] ∨ ((d :: ds).head? = some 0x30 ∧ (d :: ds).length ≠ 1)) := by
    rw [not_or]
    refine ⟨List.cons_ne_nil _ _, ?_⟩
    rintro ⟨hzero, hlength⟩
    rw [List.head?_cons, Option.some.injEq] at hzero
    exact hlength (by rw [leading hzero]; rfl)
  rw [number, hsign]
  dsimp only
  rw [digits_eq all hdigit]
  dsimp only
  rw [if_neg hwhole, part_stop (by rwa [List.mem_singleton])]
  simp only [Option.bind_eq_bind, Option.bind_some]
  rw [part_stop (by simp [hlower, hupper])]
  simp only [Option.bind_some, List.append_nil]

theorem value_number {c : UInt8} (first : isDigit c = true ∨ c = 0x2d) :
    value (n + 1) (c :: rest) =
      (number (c :: rest)).map fun (text, rest) => (.number text, rest) := by
  have hother : ∀ b, isDigit b = false → b ≠ 0x2d → c ≠ b := by
    rintro b hdigit hminus rfl
    rcases first with h | h
    · rw [hdigit] at h
      cases h
    · exact hminus h
  have hspace : isSpace c = false := by
    simp only [isSpace, Bool.or_eq_false_iff, beq_eq_false_iff_ne]
    exact ⟨⟨⟨hother _ rfl (by decide), hother _ rfl (by decide)⟩, hother _ rfl (by decide)⟩,
      hother _ rfl (by decide)⟩
  have hskip : skipSpace (c :: rest) = c :: rest := by
    rw [skipSpace, List.dropWhile_cons_of_neg (by rw [hspace]; decide)]
  rw [value, hskip]
  dsimp only
  rw [if_neg (hother quote rfl (by decide)), if_neg (hother openBrace rfl (by decide)),
    if_neg (hother openBracket rfl (by decide)), if_neg (hother 0x6e rfl (by decide)),
    if_neg (hother 0x74 rfl (by decide)), if_neg (hother 0x66 rfl (by decide))]

/-- What `decimal` prints is read as a number. -/
theorem value_decimal (n : Nat) (x : Int) {c : UInt8} (stop : isStop c = true) :
    value (n + 1) (CFormat.decimal x ++ c :: rest) =
      some (.number (CFormat.decimal x), c :: rest) := by
  have hall : ∀ m, (CFormat.digits m).all isDigit = true := by
    intro m
    rw [List.all_eq_true]
    intro d hd
    obtain ⟨hlower, hupper⟩ := CFormat.isDigit_of_mem_digits hd
    rw [isDigit, decide_eq_true hlower, decide_eq_true hupper]
    rfl
  cases x with
  | ofNat m =>
      obtain ⟨d, ds, hdigits, hzero⟩ := CFormat.digits_eq_cons m
      have hds := hall m
      rw [hdigits] at hds
      rw [Int.ofNat_eq_natCast, CFormat.decimal_natCast, hdigits, List.cons_append,
        value_number (.inl (List.all_eq_true.mp hds d List.mem_cons_self))]
      have hnumber := number_digits rest (.inl rfl) hds (fun hd => (hzero hd).2) stop
      rw [List.nil_append, List.cons_append] at hnumber
      rw [hnumber]
      rfl
  | negSucc m =>
      obtain ⟨d, ds, hdigits, hzero⟩ := CFormat.digits_eq_cons (m + 1)
      have hds := hall (m + 1)
      rw [hdigits] at hds
      rw [CFormat.decimal_negSucc, hdigits, List.cons_append, value_number (.inr rfl)]
      have hnumber := number_digits rest (.inr rfl) hds (fun hd => (hzero hd).2) stop
      rw [List.singleton_append, List.cons_append] at hnumber
      rw [hnumber]
      rfl

/-! ### Members and items -/

/-- The reader behind a key. -/
theorem members_key (n : Nat) (bytes : List UInt8) (spelled : Spells key text) :
    members (n + 1) (quote :: (text ++ quote :: colon :: bytes)) =
      (value n bytes).bind fun (v, rest) =>
        match expect comma rest with
        | some rest => (members n rest).bind fun (ms, rest) => some ((key, v) :: ms, rest)
        | none => (expect closeBrace rest).bind fun rest => some ([(key, v)], rest) := by
  rw [members, expect_cons (by decide)]
  simp only [Option.bind_eq_bind, Option.bind_some, string_of_spells spelled,
    @expect_cons bytes colon (by decide)]

theorem items_eq (n : Nat) (bytes : List UInt8) :
    items (n + 1) bytes =
      (value n bytes).bind fun (v, rest) =>
        match expect comma rest with
        | some rest => (items n rest).bind fun (vs, rest) => some (v :: vs, rest)
        | none => (expect closeBracket rest).bind fun rest => some ([v], rest) := rfl

/-- A value, and what is behind it up to the end of its array or object. -/
theorem separated_cases {α : Type} {item : Value → α} {close : UInt8}
    {first : Option (Value × List UInt8)} {more : List UInt8 → Option (List α × List UInt8)}
    {all : List α}
    (h : (first.bind fun (v, rest) =>
        match expect comma rest with
        | some rest => (more rest).bind fun (vs, rest) => some (item v :: vs, rest)
        | none => (expect close rest).bind fun rest => some ([item v], rest)) =
      some (all, rest)) :
    ∃ v others behind, all = item v :: others ∧ first = some (v, behind) ∧
      ((∃ next, expect comma behind = some next ∧ more next = some (others, rest)) ∨
        (expect comma behind = none ∧ others = [] ∧ expect close behind = some rest)) := by
  rw [Option.bind_eq_some_iff] at h
  obtain ⟨⟨v, behind⟩, hfirst, h⟩ := h
  dsimp only at h
  cases hcomma : expect comma behind with
  | some next =>
      rw [hcomma] at h
      obtain ⟨⟨others, rest'⟩, hmore, h⟩ := Option.bind_eq_some_iff.mp h
      cases h
      exact ⟨v, others, behind, rfl, hfirst, .inl ⟨next, hcomma, hmore⟩⟩
  | none =>
      rw [hcomma] at h
      obtain ⟨rest', hclose, h⟩ := Option.bind_eq_some_iff.mp h
      cases h
      exact ⟨v, [], behind, rfl, hfirst, .inr ⟨hcomma, rfl, hclose⟩⟩

/-- The items of an array are at least one, and the first is read first. -/
theorem items_cases (h : items n bytes = some (vs, rest)) :
    ∃ m v vs' behind, n = m + 1 ∧ vs = v :: vs' ∧ value m bytes = some (v, behind) ∧
      ((∃ more, expect comma behind = some more ∧ items m more = some (vs', rest)) ∨
        (expect comma behind = none ∧ vs' = [] ∧ expect closeBracket behind = some rest)) := by
  cases n with
  | zero => cases h
  | succ n =>
      rw [items_eq] at h
      obtain ⟨v, vs', behind, hvs, hvalue, hmore⟩ :=
        @separated_cases rest Value (fun v => v) closeBracket (value n bytes) (items n) vs h
      exact ⟨n, v, vs', behind, rfl, hvs, hvalue, hmore⟩

/-- Likewise the members of an object, of which the key is known. -/
theorem members_cases (spelled : Spells key text)
    (h : members n (quote :: (text ++ quote :: colon :: bytes)) = some (ms, rest)) :
    ∃ m v ms' behind, n = m + 1 ∧ ms = (key, v) :: ms' ∧ value m bytes = some (v, behind) ∧
      ((∃ more, expect comma behind = some more ∧ members m more = some (ms', rest)) ∨
        (expect comma behind = none ∧ ms' = [] ∧ expect closeBrace behind = some rest)) := by
  cases n with
  | zero => cases h
  | succ n =>
      rw [members_key n bytes spelled] at h
      obtain ⟨v, ms', behind, hms, hvalue, hmore⟩ :=
        @separated_cases rest _ (fun v => (key, v)) closeBrace (value n bytes) (members n) ms h
      exact ⟨n, v, ms', behind, rfl, hms, hvalue, hmore⟩

theorem items_cons (first : value n bytes = some (v, comma :: rest))
    (others : items n rest = some (vs, rest')) : items (n + 1) bytes = some (v :: vs, rest') := by
  rw [items_eq, first, Option.bind_some]
  simp only [@expect_cons rest comma (by decide), others, Option.bind_some]

theorem items_last (last : value n bytes = some (v, closeBracket :: rest)) :
    items (n + 1) bytes = some ([v], rest) := by
  rw [items]
  simp only [Option.bind_eq_bind, Option.bind_some, last,
    @expect_other rest closeBracket comma (by decide) (by decide),
    @expect_cons rest closeBracket (by decide)]

end Read

end Json
