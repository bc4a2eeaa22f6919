import Coping.Verification.Request

/-!
# The buffer of json_escape

The guard of the loop leaves four bytes and a terminator. An escape of two bytes fits there; one of
six bytes need not, and `snprintf` then returns more than it has written. A control character is
the last one that is written in this case, and the terminator lands one or two bytes outside.
-/

namespace Coping.Request

open CFormat Json

/-- A control character that has no letter. -/
def Coded (c : UInt8) : Prop := c < 0x20 ∧ c ≠ 0x0a ∧ c ≠ 0x0d ∧ c ≠ 0x09

/-- Some character of the string is written by its code, and its escape begins five or six bytes
before the end of the buffer. -/
def CodedAtEnd (src : List UInt8) (dstlen : Nat) : Prop :=
  ∃ front c back, src = front ++ c :: back ∧ Coded c ∧
    (escape front).length + 5 ≤ dstlen ∧ dstlen ≤ (escape front).length + 6

/-- What `json_escape` has to do for a string: it stays inside of the buffer and leaves a text
that is read as a front of the string, or as all of it if there is room. -/
def Escapes (src : CString) (dstlen : Nat) : Prop :=
  ∀ dst : CBuffer dstlen, ∃ dst' t front, jsonEscapeInto src dst = some dst' ∧ dst'.Holds t ∧
    Json.string (t ++ [quote]) = some (front, []) ∧ front <+: src.bytes ∧
    ((escape src.bytes).length + 5 ≤ dstlen → front = src.bytes)

/-! ## Lengths -/

theorem escapeByte_of_coded {c : UInt8} (coded : Coded c) :
    escapeByte c = [0x5c, 0x75] ++ hex4 c := by
  obtain ⟨hcontrol, hnewline, hreturn, htab⟩ := coded
  have hquote : c ≠ 0x22 := by
    rintro rfl
    exact absurd hcontrol (by decide)
  have hbackslash : c ≠ 0x5c := by
    rintro rfl
    exact absurd hcontrol (by decide)
  rw [escapeByte, if_neg hquote, if_neg hbackslash, if_neg hnewline, if_neg hreturn, if_neg htab,
    if_pos hcontrol]

theorem length_escapeByte_of_coded {c : UInt8} (coded : Coded c) :
    (escapeByte c).length = 6 := by
  rw [escapeByte_of_coded coded]
  rfl

theorem length_escapeByte {c : UInt8} (short : ¬Coded c) : (escapeByte c).length ≤ 2 := by
  simp only [escapeByte]
  split
  · exact Nat.le_refl 2
  split
  · exact Nat.le_refl 2
  split
  · exact Nat.le_refl 2
  split
  · exact Nat.le_refl 2
  split
  · exact Nat.le_refl 2
  split
  next hnewline hreturn htab hcontrol => exact absurd ⟨hcontrol, hnewline, hreturn, htab⟩ short
  · exact Nat.le_succ 1

/-! ## The array and the text in it -/

section Array

variable {dstlen : Nat}

/-- The array begins with what is written, as long as nothing is written outside. -/
structure Shows (b : CBuffer dstlen) (dst : Escaped) : Prop where
  begins : dst.text <+: b.bytes
  length : dst.text.length = dst.terminator

/-- What is written behind the text belongs to it, as far as one likes. -/
theorem Shows.put {b b' : CBuffer dstlen} {dst : Escaped} (h : Shows b dst)
    {bytes extra : List UInt8} (written : b.write dst.terminator (bytes ++ extra) = some b') :
    Shows b' (dst.put bytes) := by
  obtain ⟨rest, hrest⟩ := h.begins
  have htake : b.bytes.take dst.terminator = dst.text := by
    rw [← hrest, ← h.length, List.take_left]
  constructor
  · rw [CBuffer.bytes_of_write written, htake, ← List.append_assoc, List.append_assoc]
    exact List.prefix_append _ _
  · rw [Escaped.put, List.length_append, h.length]

theorem Shows.write {b : CBuffer dstlen} {dst : Escaped} (h : Shows b dst) {bytes : List UInt8}
    (room : dst.terminator + bytes.length ≤ dstlen) :
    ∃ b', b.write dst.terminator bytes = some b' ∧ Shows b' (dst.put bytes) := by
  obtain ⟨b', hb'⟩ := Option.isSome_iff_exists.mp
    ((b.write_isSome_iff dst.terminator bytes).mpr room)
  have hwritten : b.write dst.terminator (bytes ++ []) = some b' := by
    rw [List.append_nil, hb']
  exact ⟨b', hb', h.put hwritten⟩

/-- A pass does to the array what it does to the text, and `snprintf` stays inside even if the
terminator does not. -/
theorem escapeInto_step {b : CBuffer dstlen} {dst : Escaped} (h : Shows b dst)
    (room : dst.terminator + 4 < dstlen) (c : UInt8) :
    ∃ b', escapeInto b dst.terminator c = some (b', (escapeStep dstlen dst c).terminator) ∧
      ((escapeStep dstlen dst c).terminator < dstlen → Shows b' (escapeStep dstlen dst c)) := by
  have hput : ∀ bytes : List UInt8, bytes.length ≤ 2 →
      ∃ b', (b.write dst.terminator bytes).map (·, dst.terminator + bytes.length) =
          some (b', (dst.put bytes).terminator) ∧
        ((dst.put bytes).terminator < dstlen → Shows b' (dst.put bytes)) := by
    intro bytes hlength
    have hfits : dst.terminator + bytes.length ≤ dstlen := by omega
    obtain ⟨b', hb', hshows⟩ := h.write hfits
    exact ⟨b', by rw [hb']; rfl, fun _ => hshows⟩
  simp only [escapeInto, escapeStep]
  split
  · exact hput _ (Nat.le_refl 2)
  split
  · exact hput _ (Nat.le_refl 2)
  split
  · exact hput _ (Nat.le_refl 2)
  split
  · exact hput _ (Nat.le_refl 2)
  split
  · exact hput _ (Nat.le_refl 2)
  split
  · have hinside : dst.terminator ≤ dstlen := by omega
    obtain ⟨b', hb'⟩ := @CBuffer.snprintf_inside dstlen b _ hinside ([0x5c, 0x75] ++ hex4 c)
    refine ⟨b', by rw [hb']; rfl, ?_⟩
    intro hroom
    change dst.terminator + 6 < dstlen at hroom
    have hlength : ([0x5c, 0x75] ++ hex4 c).length < dstlen - dst.terminator := by
      change 6 < dstlen - dst.terminator
      omega
    have hwhole : truncated (dstlen - dst.terminator) ([0x5c, 0x75] ++ hex4 c) =
        [0x5c, 0x75] ++ hex4 c := List.take_of_length_le (by omega)
    rw [CBuffer.snprintf, CBuffer.printed_of_lt hlength] at hb'
    rw [hwhole]
    exact h.put hb'
  · exact hput _ (Nat.le_succ 1)

/-- The loop does to the array what it does to the text. -/
theorem escapeLoop_run {src : List UInt8} {b : CBuffer dstlen} {dst : Escaped} (h : Shows b dst)
    (inside : dst.terminator < dstlen) :
    ∃ b', escapeLoop src b dst.terminator = some (b', (escapeFrom dstlen src dst).terminator) ∧
      ((escapeFrom dstlen src dst).terminator < dstlen →
        Shows b' (escapeFrom dstlen src dst)) := by
  induction src generalizing b dst with
  | nil => exact ⟨b, rfl, fun _ => h⟩
  | cons c src ih =>
      rw [escapeLoop, escapeFrom]
      by_cases hroom : dst.terminator + 4 < dstlen
      · rw [if_pos hroom, if_pos hroom]
        obtain ⟨middle, hstep, hshows⟩ := escapeInto_step h hroom c
        rw [hstep]
        by_cases hnext : (escapeStep dstlen dst c).terminator < dstlen
        · exact ih (hshows hnext) hnext
        · -- The guard ends the loop at once, with the terminator outside.
          have hfull : dstlen ≤ (escapeStep dstlen dst c).terminator + 4 := by omega
          rw [escapeFrom_full hfull]
          refine ⟨middle, ?_, fun hlt => absurd hlt hnext⟩
          change escapeLoop src middle _ = _
          cases src with
          | nil => rfl
          | cons d src => rw [escapeLoop, if_neg (by omega)]
      · rw [if_neg hroom, if_neg hroom]
        exact ⟨b, rfl, fun _ => h⟩

theorem shows_empty (b : CBuffer dstlen) : Shows b {} := ⟨List.nil_prefix, rfl⟩

/-- The terminator is written last. -/
theorem jsonEscapeInto_eq (src : CString) (b : CBuffer dstlen) (room : 0 < dstlen) :
    ∃ middle : CBuffer dstlen,
      jsonEscapeInto src b = middle.write (jsonEscape src.bytes dstlen).terminator [0] ∧
        ((jsonEscape src.bytes dstlen).terminator < dstlen →
          Shows middle (jsonEscape src.bytes dstlen)) := by
  obtain ⟨middle, hloop, hshows⟩ := @escapeLoop_run dstlen src.bytes b {} (shows_empty b) room
  refine ⟨middle, ?_, hshows⟩
  change escapeLoop src.bytes b 0 = _ at hloop
  rw [jsonEscapeInto, hloop]
  rfl

theorem jsonEscapeInto_inside {src : CString} {b : CBuffer dstlen}
    (inside : (jsonEscape src.bytes dstlen).terminator < dstlen)
    (nonzero : 0 ∉ (jsonEscape src.bytes dstlen).text) :
    ∃ b', jsonEscapeInto src b = some b' ∧ b'.Holds (jsonEscape src.bytes dstlen).text := by
  obtain ⟨middle, heq, hshows⟩ := jsonEscapeInto_eq src b (Nat.zero_lt_of_lt inside)
  obtain ⟨b', hb'⟩ := Option.isSome_iff_exists.mp
    ((middle.write_isSome_iff (jsonEscape src.bytes dstlen).terminator [0]).mpr inside)
  have hshown := hshows inside
  obtain ⟨rest, hrest⟩ := hshown.begins
  refine ⟨b', heq.trans hb', ⟨?_, nonzero⟩⟩
  rw [CBuffer.bytes_of_write hb', ← hshown.length, ← hrest, List.take_left]
  exact List.prefix_append _ _

theorem jsonEscapeInto_outside {src : CString} {b : CBuffer dstlen} (room : 0 < dstlen)
    (outside : dstlen ≤ (jsonEscape src.bytes dstlen).terminator) :
    jsonEscapeInto src b = none := by
  obtain ⟨middle, heq, -⟩ := jsonEscapeInto_eq src b room
  rw [heq, CBuffer.write, dif_neg]
  rw [List.length_singleton]
  omega

end Array

/-! ## Where the terminator lands -/

theorem outside_of_coded {dstlen : Nat} {front back : List UInt8} {c : UInt8} {dst : Escaped}
    (coded : Coded c) (room : dst.terminator + (escape front).length + 5 ≤ dstlen)
    (near : dstlen ≤ dst.terminator + (escape front).length + 6) :
    dstlen ≤ (escapeFrom dstlen (front ++ c :: back) dst).terminator := by
  induction front generalizing dst with
  | nil =>
      rw [escape_nil, List.length_nil, Nat.add_zero] at room near
      obtain ⟨hterminator, -⟩ := escapeStep_cases dstlen dst c
      rw [length_escapeByte_of_coded coded] at hterminator
      rw [List.nil_append, escapeFrom, if_pos (by omega), escapeFrom_full (by omega), hterminator]
      exact near
  | cons d front ih =>
      rw [escape_cons, List.length_append] at room near
      obtain ⟨hterminator, hput⟩ := escapeStep_cases dstlen dst d
      rw [List.cons_append, escapeFrom, if_pos (by omega)]
      exact ih (by omega) (by omega)

theorem coded_of_outside {dstlen : Nat} {src : List UInt8} {dst : Escaped}
    (inside : dst.terminator < dstlen)
    (outside : dstlen ≤ (escapeFrom dstlen src dst).terminator) :
    ∃ front c back, src = front ++ c :: back ∧ Coded c ∧
      dst.terminator + (escape front).length + 5 ≤ dstlen ∧
      dstlen ≤ dst.terminator + (escape front).length + 6 := by
  induction src generalizing dst with
  | nil => exact absurd outside (Nat.not_le_of_lt inside)
  | cons c src ih =>
      rw [escapeFrom] at outside
      split at outside
      next hroom =>
        obtain ⟨hterminator, -⟩ := escapeStep_cases dstlen dst c
        by_cases hnext : (escapeStep dstlen dst c).terminator < dstlen
        · obtain ⟨front, d, back, rfl, hcoded, hlower, hupper⟩ := ih hnext outside
          refine ⟨c :: front, d, back, rfl, hcoded, ?_, ?_⟩
          · rw [escape_cons, List.length_append]
            omega
          · rw [escape_cons, List.length_append]
            omega
        · have hcoded : Coded c := by
            by_contra hshort
            have hlength := length_escapeByte hshort
            omega
          rw [length_escapeByte_of_coded hcoded] at hterminator
          refine ⟨[], c, src, rfl, hcoded, ?_, ?_⟩
          · rw [escape_nil, List.length_nil]
            omega
          · rw [escape_nil, List.length_nil]
            omega
      · exact absurd outside (Nat.not_le_of_lt inside)

/-- The terminator lands outside exactly if a code begins near the end. -/
theorem outside_iff {src : List UInt8} {dstlen : Nat} (room : 0 < dstlen) :
    dstlen ≤ (jsonEscape src dstlen).terminator ↔ CodedAtEnd src dstlen := by
  constructor
  · intro houtside
    obtain ⟨front, c, back, hsplit, hcoded, hlower, hupper⟩ := coded_of_outside room houtside
    exact ⟨front, c, back, hsplit, hcoded, by simpa using hlower, by simpa using hupper⟩
  · rintro ⟨front, c, back, rfl, hcoded, hlower, hupper⟩
    exact outside_of_coded hcoded (by simpa using hlower) (by simpa using hupper)

theorem zero_notMem_hex4 (c : UInt8) : 0 ∉ hex4 c := by
  have hdigit : ∀ n < 16, CFormat.hexDigit n ≠ 0 := by decide
  have hlt := c.toNat_lt
  have hhigh := hdigit (c.toNat / 16) (by omega)
  have hlow := hdigit (c.toNat % 16) (by omega)
  simp only [hex4, List.mem_cons, List.not_mem_nil, or_false, not_or]
  exact ⟨by decide, by decide, hhigh.symm, hlow.symm⟩

theorem zero_notMem_escape {s : List UInt8} (nonzero : 0 ∉ s) : 0 ∉ escape s := by
  rw [escape, List.mem_flatMap]
  rintro ⟨c, hc, hmem⟩
  simp only [escapeByte] at hmem
  split at hmem
  · exact absurd hmem (by decide)
  split at hmem
  · exact absurd hmem (by decide)
  split at hmem
  · exact absurd hmem (by decide)
  split at hmem
  · exact absurd hmem (by decide)
  split at hmem
  · exact absurd hmem (by decide)
  split at hmem
  · rcases List.mem_append.mp hmem with hmem | hmem
    · exact absurd hmem (by decide)
    · exact zero_notMem_hex4 c hmem
  · exact nonzero (List.mem_singleton.mp hmem ▸ hc)

theorem escape_dropLast_le (s : List UInt8) :
    (escape s.dropLast).length ≤ (escape s).length := by
  rcases List.eq_nil_or_concat s with rfl | ⟨front, c, rfl⟩
  · exact Nat.le_refl _
  · rw [List.concat_eq_append, List.dropLast_concat, escape_append, List.length_append]
    exact Nat.le_add_right _ _

/-- `json_escape` does what it has to exactly for the strings without a code near the end of
the buffer. -/
theorem escapes_iff (src : CString) {dstlen : Nat} (room : 5 ≤ dstlen) :
    Escapes src dstlen ↔ ¬CodedAtEnd src.bytes dstlen := by
  have hpositive : 0 < dstlen := by omega
  rw [← outside_iff hpositive, Nat.not_le]
  constructor
  · intro hescapes
    by_contra houtside
    obtain ⟨dst', t, front, hsome, -⟩ := hescapes CBuffer.zero
    rw [jsonEscapeInto_outside hpositive (Nat.le_of_not_lt houtside)] at hsome
    cases hsome
  · intro hinside dst
    obtain ⟨front, back, hsplit, htext, -⟩ := jsonEscape_inside room hinside
    have hfront : 0 ∉ front := fun hmem =>
      src.nonzero (hsplit ▸ List.mem_append_left back hmem)
    have hnonzero : 0 ∉ (jsonEscape src.bytes dstlen).text := htext ▸ zero_notMem_escape hfront
    obtain ⟨dst', hsome, hholds⟩ := jsonEscapeInto_inside (b := dst) hinside hnonzero
    by_cases hwhole : (escape src.bytes).length + 5 ≤ dstlen
    · have hlast := escape_dropLast_le src.bytes
      have hfits : Fits dstlen src.bytes := ⟨by omega, by omega⟩
      have hall : (jsonEscape src.bytes dstlen).text = escape src.bytes := by
        rw [jsonEscape_of_fits hfits]
      refine ⟨dst', _, src.bytes, hsome, hholds, ?_, List.prefix_refl _, fun _ => rfl⟩
      rw [hall]
      exact string_of_spells (spells_escape src.bytes) []
    · refine ⟨dst', _, front, hsome, hholds, ?_, ⟨back, hsplit.symm⟩,
        fun hfits => absurd hfits hwhole⟩
      rw [htext]
      exact string_of_spells (spells_escape front) []

/-- `a"` needs three bytes and a terminator. -/
theorem escapes_quote :
    Escapes { bytes := [0x61, 0x22], nonzero := by decide } 8 := by
  apply (escapes_iff _ (by decide)).mpr
  rintro ⟨front, c, back, hsplit, ⟨hcontrol, -⟩, -⟩
  change [0x61, 0x22] = front ++ c :: back at hsplit
  have hmem : c ∈ [0x61, 0x22] := by
    rw [hsplit]
    exact List.mem_append_right front List.mem_cons_self
  rcases List.mem_cons.mp hmem with rfl | hmem
  · exact absurd hcontrol (by decide)
  · rw [List.mem_singleton.mp hmem] at hcontrol
    exact absurd hcontrol (by decide)

/-- One control character and five bytes: the terminator goes to the seventh. -/
theorem escapes_outside :
    ¬∀ (src : CString) (dstlen : Nat), 5 ≤ dstlen → Escapes src dstlen := by
  intro hescapes
  obtain ⟨dst', t, front, hsome, -⟩ :=
    hescapes { bytes := [0x01], nonzero := by decide } 5 (by decide) CBuffer.zero
  cases hsome

end Coping.Request
