import Mathlib.Data.Nat.Bitwise

/-!
# Sets of naturals packed into machine words

Element `i` is bit `i % w` of word `i / w`. The three operations below read and
write whole words through a one-bit mask, as a C program does; `contains` is their
meaning, and each operation has one rule about it. Elements past the last word are
never contained, and writing them changes nothing.
-/

/-- `n` words of `w` bits. -/
abbrev Bitmap (w n : Nat) := Vector (BitVec w) n

namespace Bitmap

variable {w n : Nat}

def empty : Bitmap w n := Vector.replicate n 0

def word (b : Bitmap w n) (i : Nat) : BitVec w := (b[i / w]?).getD 0

def mask (w i : Nat) : BitVec w := BitVec.twoPow w (i % w)

def insert (b : Bitmap w n) (i : Nat) : Bitmap w n :=
  b.setIfInBounds (i / w) (b.word i ||| mask w i)

def erase (b : Bitmap w n) (i : Nat) : Bitmap w n :=
  b.setIfInBounds (i / w) (b.word i &&& ~~~mask w i)

/-- The masked word, zero exactly when the element is absent. -/
def select (b : Bitmap w n) (i : Nat) : BitVec w := b.word i &&& mask w i

def contains (b : Bitmap w n) (i : Nat) : Bool := (b.word i).getLsbD (i % w)

theorem word_setIfInBounds_of_eq {b : Bitmap w n} {i j : Nat} {x : BitVec w}
    (bound : i / w < n) (same : j / w = i / w) :
    word (b.setIfInBounds (i / w) x) j = x := by
  simp [word, same, bound]

theorem word_setIfInBounds_of_ne {b : Bitmap w n} {i j : Nat} {x : BitVec w}
    (other : j / w ≠ i / w) : word (b.setIfInBounds (i / w) x) j = b.word j := by
  simp [word, Ne.symm other]

/-- Two elements of one word are told apart by their bit. -/
theorem eq_iff_of_same_word {i j : Nat} (same : j / w = i / w) : j % w = i % w ↔ j = i := by
  constructor
  · intro h
    rw [← Nat.div_add_mod j w, ← Nat.div_add_mod i w, same, h]
  · rintro rfl
    rfl

theorem getLsbD_mask (hw : 0 < w) (i k : Nat) :
    (mask w i).getLsbD k = decide (i % w = k) := by
  have hi : i % w < w := Nat.mod_lt i hw
  by_cases h : i % w = k
  · simp [mask, ← h, hi]
  · simp [mask, h]

@[simp] theorem contains_empty (i : Nat) : (empty : Bitmap w n).contains i = false := by
  by_cases h : i / w < n <;> simp [contains, word, empty, h]

theorem contains_insert (hw : 0 < w) {b : Bitmap w n} {i : Nat} (bound : i / w < n) (j : Nat) :
    (b.insert i).contains j = (decide (j = i) || b.contains j) := by
  by_cases same : j / w = i / w
  · have hword : b.word j = b.word i := by simp only [word, same]
    rw [contains, insert, word_setIfInBounds_of_eq bound same, contains, hword,
      BitVec.getLsbD_or, getLsbD_mask hw, Bool.or_comm]
    congr 1
    rw [decide_eq_decide, eq_comm]
    exact eq_iff_of_same_word same
  · have hne : j ≠ i := fun h => same (by rw [h])
    simp [contains, insert, word_setIfInBounds_of_ne same, hne]

theorem contains_erase (hw : 0 < w) {b : Bitmap w n} {i : Nat} (bound : i / w < n) (j : Nat) :
    (b.erase i).contains j = (!decide (j = i) && b.contains j) := by
  by_cases same : j / w = i / w
  · have hword : b.word j = b.word i := by simp only [word, same]
    have hj : j % w < w := Nat.mod_lt j hw
    rw [contains, erase, word_setIfInBounds_of_eq bound same, contains, hword,
      BitVec.getLsbD_and, BitVec.getLsbD_not, getLsbD_mask hw, Bool.and_comm]
    simp only [hj, decide_true, Bool.true_and]
    congr 2
    rw [decide_eq_decide, eq_comm]
    exact eq_iff_of_same_word same
  · have hne : j ≠ i := fun h => same (by rw [h])
    simp [contains, erase, word_setIfInBounds_of_ne same, hne]

/-- The test of a C program: some bit of the masked word is set. -/
theorem select_eq_zero_iff (hw : 0 < w) (b : Bitmap w n) (i : Nat) :
    b.select i = 0 ↔ b.contains i = false := by
  constructor
  · intro h
    have hbit := congrArg (fun x : BitVec w => x.getLsbD (i % w)) h
    simpa [select, contains, getLsbD_mask hw] using hbit
  · intro h
    apply BitVec.eq_of_getLsbD_eq
    intro k hk
    rw [select, BitVec.getLsbD_and, getLsbD_mask hw]
    by_cases hik : i % w = k
    · subst hik
      simpa [contains] using h
    · simp [hik]

end Bitmap
