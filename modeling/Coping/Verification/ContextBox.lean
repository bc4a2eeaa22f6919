import Coping.Ai.Box
import Coping.Library.Words

/-!
# The rows of the box

The box shows the words of a text in their order, in rows that are as wide as the box allows.
A word that is too long for a row has one of its own, and the array for a line cuts it.
-/

namespace Coping.ContextBox

open Box CInt

/-- What is left of a word in an array for a line. -/
def cut (word : List UInt8) : List UInt8 := word.take 255

abbrev textWords (text : List UInt8) : List (List UInt8) := words isSeparator text

/-- A row is as wide as the box, or it is a single word that is wider. -/
def Fits (all : List (List UInt8)) (shown : List UInt8 → List UInt8) (row : List UInt8) : Prop :=
  row.length ≤ 66 ∨ ∃ word ∈ all, 66 < word.length ∧ row = shown word

/-- The rows of the box, with what is shown of every word. -/
def Wraps (text : CString) (shown : List UInt8 → List UInt8) : Prop :=
  ∃ rows, contextRows text = some rows ∧
    rows.flatMap textWords = (textWords text.bytes).map shown ∧
    ∀ row ∈ rows, Fits (textWords text.bytes) shown row

section Row

variable {all : List (List UInt8)} {b : ContextBox} {row word rest : List UInt8} {wlen : Int}

/-- The array begins with the row, and `lpos` counts its bytes; it counts those of a long word
that are not there as well. -/
structure Boxed (all : List (List UInt8)) (row : List UInt8) (b : ContextBox) : Prop where
  line : b.line.bytes = row ++ List.replicate (lineSize - row.length) 0
  nonzero : 0 ∉ row
  width : (row.length : Int) = b.lpos ∧ row.length ≤ 66 ∨
    ∃ word ∈ all, 66 < word.length ∧ row = cut word ∧ (word.length : Int) = b.lpos

theorem Boxed.length_le (h : Boxed all row b) : row.length ≤ 255 := by
  obtain ⟨-, hwidth⟩ | ⟨word, -, -, rfl, -⟩ := h.width
  · omega
  · exact List.length_take_le _ _

theorem Boxed.fits (h : Boxed all row b) : Fits all cut row := by
  obtain ⟨-, hwidth⟩ | ⟨word, hmem, hlong, hrow, -⟩ := h.width
  · exact .inl hwidth
  · exact .inr ⟨word, hmem, hlong, hrow⟩

theorem Boxed.lpos_nonneg (h : Boxed all row b) : 0 ≤ b.lpos := by
  obtain ⟨hlpos, -⟩ | ⟨word, -, -, -, hlpos⟩ := h.width
  all_goals omega

theorem Boxed.lpos_lt (h : Boxed all row b) (short : ∀ word ∈ all, word.length < 1073741824) :
    b.lpos < 1073741824 := by
  obtain ⟨hlpos, hwidth⟩ | ⟨word, hmem, -, -, hlpos⟩ := h.width
  · omega
  · have hshort := short word hmem
    omega

theorem Boxed.text (h : Boxed all row b) : b.line.text = row := by
  have hlength := h.length_le
  apply CBuffer.Holds.text
  apply CBuffer.holds_of_padded (n := lineSize - row.length - 1) _ h.nonzero
  rw [h.line, lineSize]
  congr 2
  omega

theorem Boxed.empty (h : Boxed all row b) (start : ¬0 < b.lpos) : row = [] := by
  obtain ⟨hlpos, -⟩ | ⟨word, -, hlong, -, hlpos⟩ := h.width
  · apply List.eq_nil_of_length_eq_zero
    omega
  · omega

theorem boxed_start (rows : List (List UInt8)) : Boxed all [] { rows := rows } where
  line := rfl
  nonzero := List.not_mem_nil
  width := .inl ⟨rfl, Nat.zero_le 66⟩

theorem Boxed.flush (h : Boxed all row b) :
    b.flush.rows = b.rows ++ [row] ∧ Boxed all [] b.flush := by
  refine ⟨?_, boxed_start _⟩
  rw [ContextBox.flush, h.text]

/-- The sums stay in range. -/
theorem full_eq (lower : 0 ≤ b.lpos) (upper : b.lpos < 1073741824) (nonneg : 0 ≤ wlen)
    (short : wlen < 1073741824) :
    b.full wlen = some (decide (0 < b.lpos ∧ b.lpos + 1 + wlen > cols)) := by
  rw [ContextBox.full]
  by_cases hstarted : b.lpos > 0
  · have hnext : checkedInt (b.lpos + 1) = some (b.lpos + 1) :=
      checkedInt_of_range (by omega) (by rw [intMax]; omega)
    have hwidth : checkedInt (b.lpos + 1 + wlen) = some (b.lpos + 1 + wlen) :=
      checkedInt_of_range (by omega) (by rw [intMax]; omega)
    rw [if_pos hstarted, hnext, Option.bind_eq_bind, Option.bind_some, hwidth, Option.bind_some]
    exact congrArg some (decide_eq_decide.mpr (and_iff_right hstarted).symm)
  · rw [if_neg hstarted, decide_eq_false fun hboth => hstarted hboth.1]

/-- Bytes are written behind the row. -/
theorem write_row {line : CBuffer lineSize}
    (before : line.bytes = row ++ List.replicate (lineSize - row.length) 0) (bs : List UInt8)
    (room : row.length + bs.length ≤ lineSize) :
    ∃ line', line.write row.length bs = some line' ∧
      line'.bytes = (row ++ bs) ++ List.replicate (lineSize - (row ++ bs).length) 0 := by
  have hsplit : line.bytes = row ++ List.replicate bs.length 0 ++
      List.replicate (lineSize - (row ++ bs).length) 0 := by
    rw [before, List.append_assoc, List.replicate_append_replicate, List.length_append]
    congr 2
    omega
  exact CBuffer.write_eq hsplit List.length_replicate.symm

/-- The word is copied up to the last byte but one of the array. -/
theorem append_row (before : b.line.bytes = row ++ List.replicate (lineSize - row.length) 0)
    (lpos : (row.length : Int) = b.lpos) (room : row.length ≤ 255) (word rest : List UInt8)
    (inside : b.lpos + word.length ≤ intMax) :
    ∃ line', b.append (word ++ rest) word.length =
        some { b with line := line', lpos := b.lpos + word.length } ∧
      line'.bytes = (row ++ word.take (255 - row.length)) ++
        List.replicate (lineSize - (row ++ word.take (255 - row.length)).length) 0 := by
  have hsize : lineSize = 256 := rfl
  obtain ⟨count, hcount⟩ : ∃ count : Nat, (if (word.length : Int) > lineSize - b.lpos - 1 then
      (lineSize : Int) - b.lpos - 1 else word.length) = count ∧
      count = min (255 - row.length) word.length := by
    refine ⟨min (255 - row.length) word.length, ?_, rfl⟩
    split <;> omega
  have htake : (word ++ rest).take count = word.take (255 - row.length) := by
    rw [hcount.2, ← List.take_take, List.take_append_of_le_length (Nat.le_refl _),
      List.take_length]
  have hlength : (word.take (255 - row.length)).length ≤ 255 - row.length :=
    List.length_take_le _ _
  obtain ⟨line', hwrite, hline'⟩ := write_row before
    (word.take (255 - row.length)) (by omega)
  have hsum : checkedInt (b.lpos + word.length) = some (b.lpos + word.length) :=
    checkedInt_of_range (by omega) inside
  refine ⟨line', ?_, hline'⟩
  rw [ContextBox.append, hcount.1, if_neg (by omega), Int.toNat_natCast, htake, ← lpos,
    Int.toNat_natCast, hwrite, Option.bind_eq_bind, Option.bind_some, lpos, hsum]
  rfl

/-- A word at the beginning of a line. -/
theorem append_start (h : Boxed all [] b) (start : ¬0 < b.lpos) (mem : word ∈ all)
    (nonzero : 0 ∉ word) (inside : (word.length : Int) ≤ intMax) (rest : List UInt8) :
    ∃ b', b.append (word ++ rest) word.length = some b' ∧ b'.rows = b.rows ∧
      b'.lpos = word.length ∧ Boxed all (cut word) b' := by
  have hlpos : (([] : List UInt8).length : Int) = b.lpos := by
    have hnonneg := h.lpos_nonneg
    rw [List.length_nil]
    omega
  obtain ⟨line', happend, hline⟩ := append_row h.line hlpos (Nat.zero_le _) word rest
    (by rw [← hlpos, List.length_nil]; omega)
  have hcount : b.lpos + word.length = word.length := by
    rw [← hlpos, List.length_nil]
    omega
  refine ⟨_, happend, rfl, hcount, ?_⟩
  constructor
  case line => exact hline
  case nonzero => exact fun hzero => nonzero (List.mem_of_mem_take hzero)
  case width =>
    by_cases hlong : 66 < word.length
    · exact .inr ⟨word, mem, hlong, rfl, hcount.symm⟩
    · have hcut : cut word = word := List.take_of_length_le (by omega)
      rw [hcut]
      exact .inl ⟨hcount.symm, Nat.not_lt.mp hlong⟩

/-- A word that has room behind the others. -/
theorem append_behind (h : Boxed all row b) (started : 0 < b.lpos)
    (room : b.lpos + 1 + word.length ≤ 66) (nonzero : 0 ∉ word) (rest : List UInt8) :
    ∃ b' b'', b.separate = some b' ∧ b'.append (word ++ rest) word.length = some b'' ∧
      b''.rows = b.rows ∧ Boxed all (row ++ space :: word) b'' := by
  obtain ⟨hlpos, hwidth⟩ | ⟨long, -, hlong, -, hlpos⟩ := h.width
  · obtain ⟨line, hwrite, hline⟩ := write_row h.line [space]
      (by rw [lineSize, List.length_singleton]; omega)
    have hnext : checkedInt (b.lpos + 1) = some (b.lpos + 1) :=
      checkedInt_of_range (by omega) (by rw [intMax]; omega)
    have hseparate : b.separate = some { b with line := line, lpos := b.lpos + 1 } := by
      rw [ContextBox.separate, if_pos started, ← hlpos, Int.toNat_natCast, hwrite,
        Option.bind_eq_bind, Option.bind_some, hlpos, hnext]
      rfl
    have hlength : (row ++ [space]).length = row.length + 1 := List.length_append
    obtain ⟨line', happend, hline'⟩ := append_row
      (b := { b with line := line, lpos := b.lpos + 1 }) hline (by rw [hlength, ← hlpos]; rfl)
      (by omega) word rest (by rw [intMax]; change b.lpos + 1 + (word.length : Int) ≤ _; omega)
    have htake : word.take (255 - (row ++ [space]).length) = word :=
      List.take_of_length_le (by omega)
    rw [htake, ← List.append_cons] at hline'
    refine ⟨_, _, hseparate, happend, rfl, ?_⟩
    constructor
    case line => exact hline'
    case nonzero =>
      rw [List.mem_append, List.mem_cons]
      rintro (hzero | hzero | hzero)
      · exact h.nonzero hzero
      · exact absurd hzero (by decide)
      · exact nonzero hzero
    case width =>
      refine .inl ⟨?_, ?_⟩
      · change _ = b.lpos + 1 + (word.length : Int)
        rw [List.length_append, List.length_cons, ← hlpos]
        omega
      · rw [List.length_append, List.length_cons]
        omega
  · omega

end Row

section Loop

variable {all : List (List UInt8)} {b b' b'' : ContextBox} {row w word rest : List UInt8}
variable {c : UInt8} {flushed : Bool}

theorem contextBoxLoop_end (skip : (w.dropWhile fun c => c = space) = []) :
    contextBoxLoop w b = some b := by
  rw [contextBoxLoop]
  split
  next => rfl
  next c rest hskip => cases skip.symm.trans hskip

theorem contextBoxLoop_newline (skip : (w.dropWhile fun c => c = space) = newline :: rest)
    (full : b.full 0 = some flushed) :
    contextBoxLoop w b = contextBoxLoop rest (if flushed then b.flush else b) := by
  rw [contextBoxLoop]
  split
  next hskip => cases skip.symm.trans hskip
  next c rest' hskip =>
      cases skip.symm.trans hskip
      rw [dif_pos rfl, full, Option.bind_eq_bind, Option.bind_some]

theorem contextBoxLoop_text (skip : (w.dropWhile fun c => c = space) = c :: rest)
    (other : c ≠ newline) :
    contextBoxLoop w b = (b.full (wordLength (c :: rest))).bind fun flushed =>
      if wordLength (c :: rest) > 0 then
        (if flushed then b.flush else b).separate.bind fun b =>
          (b.append (c :: rest) (wordLength (c :: rest))).bind fun b =>
            contextBoxLoop ((c :: rest).dropWhile fun c => !isSeparator c) b
      else none := by
  rw [contextBoxLoop]
  split
  next hskip => cases skip.symm.trans hskip
  next c' rest' hskip =>
      cases skip.symm.trans hskip
      rw [dif_neg other]
      rfl

theorem contextBoxLoop_word (skip : (w.dropWhile fun c => c = space) = c :: rest)
    (other : c ≠ newline)
    (split_ : (c :: rest).takeWhile (fun c => !isSeparator c) = word)
    (nonempty : word ≠ []) (inside : (word.length : Int) ≤ intMax)
    (full : b.full word.length = some flushed)
    (separated : (if flushed then b.flush else b).separate = some b')
    (appended : b'.append (c :: rest) word.length = some b'') :
    contextBoxLoop w b =
      contextBoxLoop ((c :: rest).dropWhile fun c => !isSeparator c) b'' := by
  have hwlen : wordLength (c :: rest) = word.length := by
    rw [wordLength, split_]
    exact toInt32_of_range (by omega) inside
  have hpositive : (word.length : Int) > 0 :=
    Int.natCast_pos.mpr (List.length_pos_of_ne_nil nonempty)
  rw [contextBoxLoop_text skip other, hwlen, full, Option.bind_some, if_pos hpositive, separated,
    Option.bind_some, appended, Option.bind_some]

/-- The sum of two lengths is no `int` any more. -/
theorem contextBoxLoop_overflow (skip : (w.dropWhile fun c => c = space) = c :: rest)
    (other : c ≠ newline) (full : b.full (wordLength (c :: rest)) = none) :
    contextBoxLoop w b = none := by
  rw [contextBoxLoop_text skip other, full, Option.bind_none]

/-- The words that are printed, in the line, and still to come are all of the words. -/
structure Wrapping (all : List (List UInt8)) (w row : List UInt8) (b : ContextBox) : Prop where
  boxed : Boxed all row b
  fits : ∀ row ∈ b.rows, Fits all cut row
  kept : b.rows.flatMap textWords ++ textWords row ++ (textWords w).map cut = all.map cut
  ahead : ∀ word ∈ textWords w, word ∈ all
  nonzero : 0 ∉ w

theorem Wrapping.flush (h : Wrapping all w row b) : Wrapping all w [] b.flush where
  boxed := h.boxed.flush.2
  fits r hr := by
    rw [h.boxed.flush.1] at hr
    obtain hr | hr := List.mem_append.mp hr
    · exact h.fits r hr
    · rw [List.mem_singleton.mp hr]
      exact h.boxed.fits
  kept := by
    rw [h.boxed.flush.1, List.flatMap_append, List.flatMap_singleton]
    change _ ++ [] ++ _ = _
    rw [List.append_nil]
    exact h.kept
  ahead := h.ahead
  nonzero := h.nonzero

/-- The line has room, or it is printed. -/
theorem Wrapping.makeRoom (h : Wrapping all w row b) (flushed : Bool) :
    ∃ row', (flushed = true → row' = []) ∧ (flushed = false → row' = row) ∧
      Wrapping all w row' (if flushed then b.flush else b) := by
  cases flushed with
  | true => exact ⟨[], fun _ => rfl, fun hf => absurd hf.symm Bool.false_ne_true, h.flush⟩
  | false => exact ⟨row, fun ht => absurd ht Bool.false_ne_true, fun _ => rfl, h⟩

theorem words_skip (w : List UInt8) :
    textWords (w.dropWhile fun c => c = space) = textWords w := by
  induction w with
  | nil => rfl
  | cons c w ih =>
      by_cases hspace : c = space
      · have hdrop : ((c :: w).dropWhile fun c => c = space) =
            w.dropWhile fun c => c = space := List.dropWhile_cons_of_pos (decide_eq_true hspace)
        rw [hdrop, ih, hspace]
        exact (words_cons rfl w).symm
      · have hdrop : ((c :: w).dropWhile fun c => c = space) = c :: w :=
          List.dropWhile_cons_of_neg fun hc => hspace (of_decide_eq_true hc)
        rw [hdrop]

/-- The rest of the text has the same words, without the ones that are read. -/
theorem Wrapping.skip (h : Wrapping all w row b) (suffix : rest <:+ w)
    (same : textWords rest = textWords w) : Wrapping all rest row b where
  boxed := h.boxed
  fits := h.fits
  kept := by
    rw [same]
    exact h.kept
  ahead := by
    rw [same]
    exact h.ahead
  nonzero hzero := h.nonzero (suffix.subset hzero)

/-- The first word of a text that does not begin a new line. -/
theorem first_word (skip : (w.dropWhile fun c => c = space) = c :: rest) (other : c ≠ newline) :
    ∃ word, (c :: rest).takeWhile (fun c => !isSeparator c) = word ∧ word ≠ [] ∧
      (∀ d ∈ word, isSeparator d = false) ∧
      c :: rest = word ++ ((c :: rest).dropWhile fun c => !isSeparator c) ∧
      textWords w = word :: textWords ((c :: rest).dropWhile fun c => !isSeparator c) := by
  have hc := not_separator skip other
  refine ⟨_, rfl, ?_, ?_, List.takeWhile_append_dropWhile.symm, ?_⟩
  · rw [List.takeWhile_cons_of_pos (by rw [hc]; rfl)]
    exact List.cons_ne_nil _ _
  · intro d hd
    have hall := List.all_eq_true.mp (List.all_takeWhile (p := fun c => !isSeparator c)) d hd
    rwa [Bool.not_eq_true'] at hall
  · rw [← words_skip w, skip]
    exact words_takeWhile hc rest

/-- A word has moved from the text to the line. -/
theorem Wrapping.move {row' : List UInt8} (h : Wrapping all w row b) (suffix : rest <:+ w)
    (first : textWords w = word :: textWords rest) (boxed : Boxed all row' b')
    (rows : b'.rows = b.rows) (shown : textWords row' = textWords row ++ [cut word]) :
    Wrapping all rest row' b' where
  boxed := boxed
  fits := by
    rw [rows]
    exact h.fits
  kept := by
    rw [rows, shown, ← h.kept, first, List.map_cons, List.append_assoc, List.append_assoc,
      List.append_assoc, List.singleton_append]
  ahead later mem := h.ahead later (first ▸ List.mem_cons_of_mem word mem)
  nonzero hzero := h.nonzero (suffix.subset hzero)

/-- A word goes into the line, after a flush where it has no room. -/
theorem Wrapping.store (h : Wrapping all w row b)
    (short : ∀ word ∈ all, word.length < 1073741824)
    (skip : (w.dropWhile fun c => c = space) = c :: rest) (other : c ≠ newline) :
    ∃ row' b', contextBoxLoop w b =
        contextBoxLoop ((c :: rest).dropWhile fun c => !isSeparator c) b' ∧
      Wrapping all ((c :: rest).dropWhile fun c => !isSeparator c) row' b' := by
  obtain ⟨word, hword, hnonempty, hrun, hsplit, hfirst⟩ := first_word skip other
  have hsuffix : c :: rest <:+ w := skip ▸ List.dropWhile_suffix _
  have hrest : ((c :: rest).dropWhile fun c => !isSeparator c) <:+ w :=
    (List.dropWhile_suffix _).trans hsuffix
  have hmem : word ∈ all := h.ahead word (hfirst ▸ List.mem_cons_self)
  have hshort := short word hmem
  have hinside : (word.length : Int) ≤ intMax := by
    rw [intMax]
    omega
  have hzero : 0 ∉ word := fun hzero =>
    h.nonzero (hsuffix.subset (hsplit ▸ List.mem_append_left _ hzero))
  have hfull := full_eq h.boxed.lpos_nonneg (h.boxed.lpos_lt short)
    (Int.natCast_nonneg word.length) (by omega)
  obtain ⟨row', hflushed, hsame, hroom⟩ := h.makeRoom
    (decide (0 < b.lpos ∧ b.lpos + 1 + (word.length : Int) > cols))
  obtain ⟨flushed, hdecide⟩ : ∃ flushed,
      decide (0 < b.lpos ∧ b.lpos + 1 + (word.length : Int) > cols) = flushed := ⟨_, rfl⟩
  rw [hdecide] at hfull hflushed hsame hroom
  by_cases hstarted : 0 < (if flushed then b.flush else b).lpos
  · -- The line has not been printed, so there is room.
    have hkeep : flushed = false := by
      cases flushed with
      | true => exact absurd hstarted (Int.lt_irrefl 0)
      | false => rfl
    subst hkeep
    obtain rfl := hsame rfl
    change 0 < b.lpos at hstarted
    have hfits : b.lpos + 1 + word.length ≤ 66 := by
      have hnot := of_decide_eq_false hdecide
      have hcols : cols = 66 := rfl
      rw [hcols] at hnot
      omega
    obtain ⟨b', b'', hseparate, happend, hrows, hboxed⟩ :=
      append_behind h.boxed hstarted hfits hzero
        ((c :: rest).dropWhile fun c => !isSeparator c)
    rw [← hsplit] at happend
    refine ⟨_, b'',
      contextBoxLoop_word skip other hword hnonempty hinside hfull hseparate happend,
      h.move hrest hfirst hboxed hrows ?_⟩
    have hcut : cut word = word := List.take_of_length_le (by omega)
    rw [hcut, ← words_run hrun hnonempty]
    exact words_append_cons row' word rfl
  · obtain rfl := hroom.boxed.empty hstarted
    obtain ⟨b', happend, hrows, -, hboxed⟩ :=
      append_start hroom.boxed hstarted hmem hzero hinside
        ((c :: rest).dropWhile fun c => !isSeparator c)
    rw [← hsplit] at happend
    have hseparate : (if flushed then b.flush else b).separate =
        some (if flushed then b.flush else b) := if_neg hstarted
    refine ⟨_, b',
      contextBoxLoop_word skip other hword hnonempty hinside hfull hseparate happend,
      hroom.move hrest hfirst hboxed hrows ?_⟩
    have hne : cut word ≠ [] := by
      cases word with
      | nil => exact absurd rfl hnonempty
      | cons d word => exact List.cons_ne_nil _ _
    exact words_run (fun d hd => hrun d (List.mem_of_mem_take hd)) hne

/-- The loop ends with all of the words in the rows and in the line. -/
theorem Wrapping.run (short : ∀ word ∈ all, word.length < 1073741824) :
    ∀ {w row : List UInt8} {b : ContextBox}, Wrapping all w row b →
      ∃ row' b', contextBoxLoop w b = some b' ∧ Wrapping all [] row' b' := by
  intro w row b h
  cases hskip : w.dropWhile fun c => c = space with
  | nil =>
      have hwords : textWords [] = textWords w := by rw [← words_skip w, hskip]
      exact ⟨row, b, contextBoxLoop_end hskip, h.skip List.nil_suffix hwords⟩
  | cons c rest =>
      by_cases hnewline : c = newline
      · subst hnewline
        have hlt := length_skipped hskip
        have hfull := full_eq h.boxed.lpos_nonneg (h.boxed.lpos_lt short) (Int.le_refl 0)
          (by decide)
        have hwords : textWords rest = textWords w := by
          rw [← words_skip w, hskip]
          exact (words_cons rfl rest).symm
        have hsuffix : rest <:+ w :=
          (List.suffix_cons newline rest).trans (hskip ▸ List.dropWhile_suffix _)
        obtain ⟨row', -, -, hroom⟩ := (h.skip hsuffix hwords).makeRoom
          (decide (0 < b.lpos ∧ b.lpos + 1 + 0 > cols))
        obtain ⟨row'', b'', hrun, hend⟩ := Wrapping.run short hroom
        exact ⟨row'', b'', (contextBoxLoop_newline hskip hfull).trans hrun, hend⟩
      · have hlt := length_word hskip hnewline
        obtain ⟨row', b', hstep, hnext⟩ := h.store short hskip hnewline
        obtain ⟨row'', b'', hrun, hend⟩ := Wrapping.run short hnext
        exact ⟨row'', b'', hstep.trans hrun, hend⟩
termination_by w => w.length

theorem wrapping_start (text : CString) :
    Wrapping (textWords text.bytes) text.bytes [] {} where
  boxed := boxed_start []
  fits row hrow := by cases hrow
  kept := rfl
  ahead _ hword := hword
  nonzero := text.nonzero

/-- With the last line the rows hold all of the words. -/
theorem Wrapping.finish (h : Wrapping all [] row b) :
    (if b.lpos > 0 then b.flush.rows else b.rows).flatMap textWords = all.map cut ∧
      ∀ row ∈ (if b.lpos > 0 then b.flush.rows else b.rows), Fits all cut row := by
  have hkept : b.rows.flatMap textWords ++ textWords row = all.map cut := by
    have hkept := h.kept
    change _ ++ [] = _ at hkept
    rwa [List.append_nil] at hkept
  by_cases hstarted : b.lpos > 0
  · rw [if_pos hstarted]
    refine ⟨?_, h.flush.fits⟩
    rw [h.boxed.flush.1, List.flatMap_append, List.flatMap_singleton, hkept]
  · obtain rfl := h.boxed.empty hstarted
    rw [if_neg hstarted]
    refine ⟨?_, h.fits⟩
    rw [← hkept]
    exact (List.append_nil _).symm

theorem contextRows_of_loop {text : CString} (loop : contextBoxLoop text.bytes {} = some b) :
    contextRows text = some (if b.lpos > 0 then b.flush.rows else b.rows) := by
  rw [contextRows, loop]
  rfl

end Loop

/-- The box shows the words of a text in rows of at most 66 bytes. A longer word has a row of its
own, and of its bytes there are 255. -/
theorem print_context_box_wraps (text : CString)
    (short : ∀ word ∈ textWords text.bytes, word.length < 1073741824) : Wraps text cut := by
  obtain ⟨row, b, hrun, hend⟩ := (wrapping_start text).run short
  exact ⟨_, contextRows_of_loop hrun, hend.finish⟩

/-- A response of two words. -/
def twoWords : CString := ⟨CFormat.ascii "not bad", by decide⟩

theorem print_context_box_wraps_two : Wraps twoWords cut :=
  print_context_box_wraps twoWords (by decide)

/-! ## Long words -/

section Long

/-- A word of any length. -/
def longWord (n : Nat) : List UInt8 := List.replicate n 0x78

theorem longWord_run (n : Nat) : ∀ c ∈ longWord n, isSeparator c = false := by
  intro c hc
  rw [List.eq_of_mem_replicate hc]
  rfl

theorem longWord_nonzero (n : Nat) : 0 ∉ longWord n := by
  intro hzero
  exact absurd (List.eq_of_mem_replicate hzero) (by decide)

/-- A single word. -/
def longText (n : Nat) : CString := ⟨longWord n, longWord_nonzero n⟩

/-- Two words of the same length. -/
def twoLong (n : Nat) : CString where
  bytes := longWord n ++ space :: longWord n
  nonzero := by
    rw [List.mem_append, List.mem_cons]
    rintro (hzero | hzero | hzero)
    · exact longWord_nonzero n hzero
    · exact absurd hzero (by decide)
    · exact longWord_nonzero n hzero

theorem textWords_longWord {n : Nat} (positive : 0 < n) :
    textWords (longWord n) = [longWord n] := by
  apply words_run (longWord_run n)
  apply List.ne_nil_of_length_pos
  rw [longWord, List.length_replicate]
  exact positive

theorem takeWhile_longWord (n : Nat) (rest : List UInt8) :
    ((longWord n ++ rest).takeWhile fun c => !isSeparator c) =
      longWord n ++ rest.takeWhile fun c => !isSeparator c :=
  List.takeWhile_append_of_pos fun c hc => by rw [longWord_run n c hc]; rfl

theorem dropWhile_longWord (n : Nat) (rest : List UInt8) :
    ((longWord n ++ rest).dropWhile fun c => !isSeparator c) =
      rest.dropWhile fun c => !isSeparator c :=
  List.dropWhile_append_of_pos fun c hc => by rw [longWord_run n c hc]; rfl

/-- The first word fills the line, and with the second one the sum of the lengths overflows. -/
theorem contextRows_overflow {n : Nat} (inside : (n : Int) < intMax)
    (beyond : intMax < (n : Int) + 1 + n) : contextRows (twoLong n) = none := by
  have hlength : (longWord n).length = n := List.length_replicate
  obtain ⟨m, rfl⟩ : ∃ m, n = m + 1 := ⟨n - 1, by rw [intMax] at beyond; omega⟩
  have hcons : longWord (m + 1) = 0x78 :: longWord m := List.replicate_succ
  have hsplit : longWord (m + 1) ++ space :: longWord (m + 1) =
      0x78 :: (longWord m ++ space :: longWord (m + 1)) := by rw [hcons, List.cons_append]
  have htake := takeWhile_longWord (m + 1) (space :: longWord (m + 1))
  have hdrop := dropWhile_longWord (m + 1) (space :: longWord (m + 1))
  rw [List.takeWhile_cons_of_neg (by decide), List.append_nil, hsplit] at htake
  rw [List.dropWhile_cons_of_neg (by decide), hsplit] at hdrop
  have hskip : ((longWord (m + 1) ++ space :: longWord (m + 1)).dropWhile fun c => c = space) =
      0x78 :: (longWord m ++ space :: longWord (m + 1)) := by
    rw [hsplit]
    exact List.dropWhile_cons_of_neg (by decide)
  obtain ⟨b', happend, -, hlpos, -⟩ := append_start (boxed_start []) (Int.lt_irrefl 0)
    (List.mem_singleton_self (longWord (m + 1))) (longWord_nonzero (m + 1))
    (by rw [hlength]; exact Int.le_of_lt inside) (space :: longWord (m + 1))
  rw [hsplit] at happend
  have hfirst : contextBoxLoop (twoLong (m + 1)).bytes {} =
      contextBoxLoop (space :: longWord (m + 1)) b' := by
    rw [← hdrop]
    have hfull : ({} : ContextBox).full (longWord (m + 1)).length = some false := rfl
    refine contextBoxLoop_word hskip (by decide) htake ?_ ?_ hfull rfl happend
    · exact hcons ▸ List.cons_ne_nil _ _
    · rw [hlength]
      exact Int.le_of_lt inside
  have hskip' : ((space :: longWord (m + 1)).dropWhile fun c => c = space) =
      0x78 :: longWord m := by
    rw [hcons]
    rfl
  have hwlen : wordLength (0x78 :: longWord m) = (m + 1 : Nat) := by
    have htake' := takeWhile_longWord (m + 1) []
    rw [List.append_nil, List.takeWhile_nil, List.append_nil, hcons] at htake'
    rw [wordLength, htake', ← hcons, hlength]
    exact toInt32_of_range (by omega) (Int.le_of_lt inside)
  have hfull : b'.full (wordLength (0x78 :: longWord m)) = none := by
    rw [hlength] at hlpos
    have hnext : checkedInt (b'.lpos + 1) = some (b'.lpos + 1) := by
      rw [hlpos]
      exact checkedInt_of_range (by omega) inside
    have hstarted : b'.lpos > 0 := by
      rw [hlpos]
      omega
    rw [ContextBox.full, if_pos hstarted, hnext, hwlen, hlpos, Option.bind_eq_bind,
      Option.bind_some, checkedInt_of_gt beyond, Option.bind_none]
  rw [contextRows, hfirst, contextBoxLoop_overflow hskip' (by decide) hfull]
  rfl

end Long

/-- A word of 256 bytes loses the last one, and two words of half the range of `int` overflow
it. -/
theorem print_context_box_cuts :
    ¬Wraps (longText 256) id ∧ contextRows (twoLong 1073741824) = none := by
  constructor
  · rintro ⟨rows, hrows, hwords, -⟩
    have hall : textWords (longText 256).bytes = [longWord 256] :=
      textWords_longWord (Nat.succ_pos 255)
    have hshort : ∀ word ∈ textWords (longText 256).bytes, word.length < 1073741824 := by
      rw [hall]
      intro word hword
      rw [List.mem_singleton.mp hword, longWord, List.length_replicate]
      decide
    obtain ⟨row, b, hrun, hend⟩ := (wrapping_start (longText 256)).run hshort
    obtain rfl := Option.some.inj (hrows.symm.trans (contextRows_of_loop hrun))
    have hcut := hend.finish.1.symm.trans hwords
    rw [hall, List.map_id, List.map_singleton] at hcut
    have hlength := congrArg List.length (List.cons.inj hcut).1
    rw [cut, List.length_take, longWord, List.length_replicate] at hlength
    cases hlength
  · exact contextRows_overflow (by decide) (by decide)

end Coping.ContextBox
