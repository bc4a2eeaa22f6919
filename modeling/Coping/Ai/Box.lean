import Coping.Library.CBuffer
import Coping.Library.CFormat
import Coping.Library.CInt

/-!
# The box around the context

`print_context_box` of `coping_ai.c`. The lengths are of type `int`; an overflow has no result,
and neither has a write outside of `line`.
-/

namespace Coping

open CFormat CInt

def BOX_WIDTH : Nat := 70

namespace Box

def space : UInt8 := 0x20

def newline : UInt8 := 0x0a

def isSeparator (c : UInt8) : Bool := c = space || c = newline

/-- `wlen` for the word at `w`. -/
def wordLength (w : List UInt8) : Int := toInt32 (w.takeWhile fun c => !isSeparator c).length

def cols : Int := BOX_WIDTH - 4

/-- `sizeof(line)` -/
def lineSize : Nat := 256

/-- The lines of the frame, in UTF-8. -/
def dash : List UInt8 := [0xe2, 0x94, 0x80]

def bar : List UInt8 := [0xe2, 0x94, 0x82]

section Termination

variable {w rest : List UInt8} {c : UInt8}

theorem length_skipped (skip : (w.dropWhile fun c => c = space) = c :: rest) :
    rest.length < w.length := by
  have hsuffix : c :: rest <:+ w := skip ▸ List.dropWhile_suffix fun c => decide (c = space)
  exact hsuffix.length_le

theorem not_space (skip : (w.dropWhile fun c => c = space) = c :: rest) : c ≠ space := by
  have hhead := List.head?_dropWhile_not (fun c => decide (c = space)) w
  rw [skip] at hhead
  exact of_decide_eq_false hhead

/-- Behind the skipped spaces there is a word, or the end of a line. -/
theorem not_separator (skip : (w.dropWhile fun c => c = space) = c :: rest)
    (other : c ≠ newline) : isSeparator c = false := by
  rw [isSeparator, decide_eq_false (not_space skip), decide_eq_false other]
  rfl

theorem length_word (skip : (w.dropWhile fun c => c = space) = c :: rest)
    (other : c ≠ newline) :
    ((c :: rest).dropWhile fun c => !isSeparator c).length < w.length := by
  have hc := not_separator skip other
  rw [List.dropWhile_cons_of_pos (by rw [hc]; rfl)]
  exact Nat.lt_of_le_of_lt (List.dropWhile_suffix fun c => !isSeparator c).length_le
    (length_skipped skip)

end Termination

end Box

open Box

structure ContextBox where
  line : CBuffer lineSize := CBuffer.zero
  lpos : Int := 0
  /-- What the rows that are printed hold. -/
  rows : List (List UInt8) := []

namespace ContextBox

def flush (b : ContextBox) : ContextBox where
  rows := b.rows ++ [b.line.text]

/-- Whether a word has no room in the line any more. -/
def full (b : ContextBox) (wlen : Int) : Option Bool :=
  if b.lpos > 0 then do
    let next ← checkedInt (b.lpos + 1)
    let width ← checkedInt (next + wlen)
    return width > cols
  else some false

/-- The space between two words. -/
def separate (b : ContextBox) : Option ContextBox :=
  if b.lpos > 0 then do
    let line ← b.line.write b.lpos.toNat [space]
    let lpos ← checkedInt (b.lpos + 1)
    return { b with line := line, lpos := lpos }
  else some b

/-- The word at `w` is copied as far as there is room, and counted in full. -/
def append (b : ContextBox) (w : List UInt8) (wlen : Int) : Option ContextBox := do
  let room := (lineSize : Int) - b.lpos - 1
  let count := if wlen > room then room else wlen
  if count < 0 then none
  else
    let line ← b.line.write b.lpos.toNat (w.take count.toNat)
    let lpos ← checkedInt (b.lpos + wlen)
    return { b with line := line, lpos := lpos }

end ContextBox

/-- The loop over the words. A word whose length is no positive `int` is read for ever. -/
def contextBoxLoop (w : List UInt8) (b : ContextBox) : Option ContextBox :=
  match _skip : w.dropWhile fun c => c = space with
  | [] => some b
  | c :: rest =>
    if _other : c = newline then do
      let b := if ← b.full 0 then b.flush else b
      contextBoxLoop rest b
    else do
      let b := if ← b.full (wordLength (c :: rest)) then b.flush else b
      if wordLength (c :: rest) > 0 then
        let b ← b.separate
        let b ← b.append (c :: rest) (wordLength (c :: rest))
        contextBoxLoop ((c :: rest).dropWhile fun c => !isSeparator c) b
      else none
termination_by w.length
decreasing_by
  · exact length_skipped _skip
  · exact length_word _skip _other

/-- The rows of the box. -/
def contextRows (text : CString) : Option (List (List UInt8)) := do
  let b ← contextBoxLoop text.bytes {}
  return if b.lpos > 0 then b.flush.rows else b.rows

/-- A row is padded to its width. -/
def contextRow (row : List UInt8) : List UInt8 :=
  ascii "  " ++ bar ++ ascii "  " ++ row ++
    List.replicate (cols.toNat - row.length) space ++ bar ++ [newline]

/-- All that the function prints. -/
def printContextBox (label text : CString) : Option (List UInt8) := do
  let rows ← contextRows text
  let dashes := BOX_WIDTH - label.bytes.length - 4
  return [newline] ++ ascii "  " ++ [0xe2, 0x94, 0x8c] ++ dash ++ [space] ++ label.bytes ++
    [space] ++ (List.replicate dashes dash).flatten ++ [0xe2, 0x94, 0x90, newline] ++
    rows.flatMap contextRow ++
    ascii "  " ++ [0xe2, 0x94, 0x94] ++ (List.replicate (BOX_WIDTH + 1) dash).flatten ++
    [0xe2, 0x94, 0x98, newline, newline]

end Coping
