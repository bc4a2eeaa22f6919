import Mathlib.Data.List.Basic

/-!
# Arrays of bytes that are written through pointers

`CBuffer capacity` is an array of exactly `capacity` bytes. A write has no result when
a byte would land behind its end: nothing is known about a program that does that.

`snprintf` is told how much room it has; with a wrong number it writes outside like
anything else. `Holds t` says that the array begins with the text `t` and its
terminator. An append to the end of the text keeps that as long as the whole text
leaves room for the terminator.
-/

/-- The bytes of a C string before its terminator. -/
structure CString where
  bytes : List UInt8
  nonzero : 0 ∉ bytes

/-- The byte at an index, up to the terminator. Nothing is known of what stands behind it. -/
def CString.byte (s : CString) (i : Nat) : Option UInt8 := (s.bytes ++ [0])[i]?

/-- From the first occurrence of `needle` on. -/
def strstr (needle : List UInt8) : List UInt8 → Option (List UInt8)
  | [] => if needle = [] then some [] else none
  | c :: hay => if needle <+: c :: hay then some (c :: hay) else strstr needle hay

@[ext]
structure CBuffer (capacity : Nat) where
  bytes : List UInt8
  length_bytes : bytes.length = capacity

theorem strstr_of_isPrefix {needle hay : List UInt8} (h : needle <+: hay) :
    strstr needle hay = some hay := by
  cases hay with
  | nil => rw [strstr, if_pos (List.prefix_nil.mp h)]
  | cons c hay => rw [strstr, if_pos h]

theorem strstr_cons {needle hay : List UInt8} {c : UInt8} (h : ¬needle <+: c :: hay) :
    strstr needle (c :: hay) = strstr needle hay := by
  rw [strstr, if_neg h]

theorem strstr_spec {needle x : List UInt8} : ∀ {hay}, strstr needle hay = some x →
    needle <+: x ∧ x <:+ hay
  | [], h => by
      rw [strstr] at h
      split at h
      next hempty =>
        cases h
        rw [hempty]
        exact ⟨List.prefix_rfl, List.suffix_rfl⟩
      next => cases h
  | c :: hay, h => by
      rw [strstr] at h
      split at h
      next hfront =>
        cases h
        exact ⟨hfront, List.suffix_rfl⟩
      next =>
        obtain ⟨hfront, hsuffix⟩ := strstr_spec h
        exact ⟨hfront, hsuffix.trans (List.suffix_cons c hay)⟩

/-- The elements behind a write. -/
theorem getElem?_written {α : Type} {xs new : List α} {offset : Nat}
    (inside : offset ≤ xs.length) (i : Nat) :
    (xs.take offset ++ new ++ xs.drop (offset + new.length))[i]? =
      if offset ≤ i ∧ i < offset + new.length then new[i - offset]? else xs[i]? := by
  have hfront : (xs.take offset).length = offset := by
    rw [List.length_take]
    omega
  rw [List.append_assoc]
  split
  next hnew =>
    rw [List.getElem?_append_right (by omega), hfront, List.getElem?_append_left (by omega)]
  next hold =>
    by_cases hbefore : i < offset
    · rw [List.getElem?_append_left (by omega), List.getElem?_take_of_lt hbefore]
    · rw [List.getElem?_append_right (by omega), hfront, List.getElem?_append_right (by omega),
        List.getElem?_drop]
      congr 1
      omega

namespace CString

/-- A byte of the text, or its terminator. -/
theorem byte_append {s : CString} {front back : List UInt8} (split : s.bytes = front ++ back) :
    s.byte front.length = some (back.headD 0) := by
  rw [byte, split, List.append_assoc, List.getElem?_append_right (Nat.le_refl _), Nat.sub_self]
  cases back <;> rfl

end CString

namespace CBuffer

variable {capacity : Nat}

def zero : CBuffer capacity where
  bytes := List.replicate capacity 0
  length_bytes := List.length_replicate

def write (b : CBuffer capacity) (offset : Nat) (bs : List UInt8) : Option (CBuffer capacity) :=
  if h : offset + bs.length ≤ capacity then
    some
      { bytes := b.bytes.take offset ++ bs ++ b.bytes.drop (offset + bs.length)
        length_bytes := by
          have := b.length_bytes
          simp only [List.length_append, List.length_take, List.length_drop]
          omega }
  else none

/-- The bytes that `snprintf` writes when told that there is room for `size`. -/
def printed (size : Nat) (text : List UInt8) : List UInt8 :=
  if size = 0 then [] else text.take (size - 1) ++ [0]

def snprintf (b : CBuffer capacity) (offset size : Nat) (text : List UInt8) :
    Option (CBuffer capacity) :=
  b.write offset (printed size text)

/-- `strncpy`: as many bytes as it is told to write, the rest of them zero. A longer text gets no
terminator. -/
def strncpy (b : CBuffer capacity) (text : List UInt8) (n : Nat) : Option (CBuffer capacity) :=
  b.write 0 (text.take n ++ List.replicate (n - text.length) 0)

/-- Make the text empty. -/
def clear (b : CBuffer capacity) : CBuffer capacity where
  bytes := b.bytes.set 0 0
  length_bytes := by rw [List.length_set, b.length_bytes]

/-- The C string at the beginning of the array. -/
def text (b : CBuffer capacity) : List UInt8 := b.bytes.takeWhile (· ≠ 0)

/-! ## Writes -/

theorem write_isSome_iff (b : CBuffer capacity) (offset : Nat) (bs : List UInt8) :
    (b.write offset bs).isSome ↔ offset + bs.length ≤ capacity := by
  rw [write]
  split
  next h => exact ⟨fun _ => h, fun _ => rfl⟩
  next h => exact ⟨fun hsome => absurd hsome Bool.false_ne_true, fun hle => absurd hle h⟩

theorem bytes_of_write {b b' : CBuffer capacity} {offset : Nat} {bs : List UInt8}
    (h : b.write offset bs = some b') :
    b'.bytes = b.bytes.take offset ++ bs ++ b.bytes.drop (offset + bs.length) := by
  rw [write] at h
  split at h
  · cases h
    rfl
  · cases h

/-- A write inside the array, told by what stands before, at and behind it. -/
theorem write_eq {b : CBuffer capacity} {front old back new : List UInt8}
    (split : b.bytes = front ++ old ++ back) (same : new.length = old.length) :
    ∃ b', b.write front.length new = some b' ∧ b'.bytes = front ++ new ++ back := by
  have hlength := b.length_bytes
  rw [split, List.length_append, List.length_append] at hlength
  obtain ⟨b', hb'⟩ := Option.isSome_iff_exists.mp
    ((b.write_isSome_iff front.length new).mpr (by omega))
  refine ⟨b', hb', ?_⟩
  rw [bytes_of_write hb', split, same, ← List.length_append, List.drop_left,
    List.append_assoc front old back, List.take_left]

/-- What is written behind the first bytes of the array is appended to them. -/
theorem write_behind {b : CBuffer capacity} {t bs : List UInt8} (begins : t <+: b.bytes)
    (room : t.length + bs.length ≤ capacity) :
    ∃ b', b.write t.length bs = some b' ∧ t ++ bs <+: b'.bytes := by
  obtain ⟨b', hb'⟩ := Option.isSome_iff_exists.mp ((b.write_isSome_iff t.length bs).mpr room)
  obtain ⟨rest, hrest⟩ := begins
  refine ⟨b', hb', ?_⟩
  rw [bytes_of_write hb', ← hrest, List.take_left]
  exact List.prefix_append _ _

/-! ## Texts -/

/-- The array begins with a text and its terminator. -/
structure Holds (b : CBuffer capacity) (t : List UInt8) : Prop where
  begins : t ++ [0] <+: b.bytes
  nonzero : 0 ∉ t

theorem Holds.text {b : CBuffer capacity} {t : List UInt8} (h : b.Holds t) : b.text = t := by
  obtain ⟨rest, hrest⟩ := h.begins
  rw [CBuffer.text, ← hrest, List.append_assoc, List.takeWhile_append_of_pos]
  · simp
  · intro c hc
    exact decide_eq_true fun hzero => h.nonzero (hzero ▸ hc)

theorem Holds.length_lt {b : CBuffer capacity} {t : List UInt8} (h : b.Holds t) :
    t.length < capacity := by
  have hle := h.begins.length_le
  rw [b.length_bytes, List.length_append] at hle
  exact hle

theorem Holds.of_head {b : CBuffer capacity} (empty : b.bytes[0]? = some 0) : b.Holds [] := by
  refine ⟨?_, List.not_mem_nil⟩
  cases hb : b.bytes with
  | nil =>
      rw [hb] at empty
      cases empty
  | cons c rest =>
      rw [hb] at empty
      cases empty
      exact List.prefix_append [0] rest

theorem Holds.clear {b : CBuffer capacity} (positive : 0 < capacity) : b.clear.Holds [] := by
  apply Holds.of_head
  change (b.bytes.set 0 0)[0]? = some 0
  rw [List.getElem?_set_self (by rw [b.length_bytes]; exact positive)]

/-- The first byte tells whether there is a text. -/
theorem Holds.head {b : CBuffer capacity} {t : List UInt8} (h : b.Holds t) :
    b.bytes[0]? = some 0 ↔ t = [] := by
  obtain ⟨rest, hrest⟩ := h.begins
  rw [← hrest]
  cases t with
  | nil => exact ⟨fun _ => rfl, fun _ => rfl⟩
  | cons c t =>
      have hc : c ≠ 0 := fun hzero => h.nonzero (hzero ▸ List.mem_cons_self)
      exact ⟨fun hhead => absurd (Option.some.inj hhead) hc, fun hnil => nomatch hnil⟩

/-- The printed text is complete when its terminator has room. -/
theorem printed_of_lt {size : Nat} {text : List UInt8} (room : text.length < size) :
    printed size text = text ++ [0] := by
  rw [printed, if_neg (by omega), List.take_of_length_le (by omega)]

theorem length_printed_le (size : Nat) (text : List UInt8) :
    (printed size text).length ≤ size := by
  rw [printed]
  split
  · exact Nat.zero_le _
  · rw [List.length_append, List.length_take, List.length_singleton]
    omega

/-- `snprintf` behind a text appends to it when the whole fits. -/
theorem Holds.snprintf {b : CBuffer capacity} {t text : List UInt8} (h : b.Holds t)
    (nonzero : 0 ∉ text) (room : t.length + text.length < capacity) :
    ∃ b', b.snprintf t.length (capacity - t.length) text = some b' ∧ b'.Holds (t ++ text) := by
  have hprinted : printed (capacity - t.length) text = text ++ [0] :=
    printed_of_lt (by omega)
  obtain ⟨b', hb'⟩ := Option.isSome_iff_exists.mp
    ((b.write_isSome_iff t.length (text ++ [0])).mpr
      (by rw [List.length_append, List.length_singleton]; omega))
  refine ⟨b', ?_, ?_, ?_⟩
  · rw [CBuffer.snprintf, hprinted, hb']
  · obtain ⟨rest, hrest⟩ := h.begins
    rw [bytes_of_write hb', ← hrest, List.append_assoc t [0] rest, List.take_left,
      ← List.append_assoc t text [0]]
    exact List.prefix_append _ _
  · rw [List.mem_append]
    exact fun hmem => hmem.elim h.nonzero nonzero

/-- A text that does not fit is cut off. -/
theorem Holds.snprintf_cut {b : CBuffer capacity} {t text : List UInt8} (h : b.Holds t)
    (nonzero : 0 ∉ text) (full : capacity ≤ t.length + text.length) :
    ∃ b', b.snprintf t.length (capacity - t.length) text = some b' ∧
      b'.Holds ((t ++ text).take (capacity - 1)) := by
  have hlt := h.length_lt
  have hsize : capacity - t.length ≠ 0 := by omega
  have htake : (t ++ text).take (capacity - 1) = t ++ text.take (capacity - t.length - 1) := by
    rw [List.take_append, List.take_of_length_le (by omega), Nat.sub_right_comm]
  have hprinted : printed (capacity - t.length) text =
      text.take (capacity - t.length - 1) ++ [0] := by
    rw [printed, if_neg hsize]
  have hlength : (text.take (capacity - t.length - 1) ++ [0]).length = capacity - t.length := by
    rw [List.length_append, List.length_take, List.length_singleton]
    omega
  obtain ⟨b', hb'⟩ := Option.isSome_iff_exists.mp
    ((b.write_isSome_iff t.length (text.take (capacity - t.length - 1) ++ [0])).mpr
      (by rw [hlength]; omega))
  refine ⟨b', by rw [CBuffer.snprintf, hprinted, hb'], ?_, ?_⟩
  · obtain ⟨rest, hrest⟩ := h.begins
    rw [bytes_of_write hb', htake, ← hrest, List.append_assoc t [0] rest, List.take_left,
      List.append_assoc t, List.append_assoc t, List.prefix_append_right_inj]
    exact List.prefix_append _ _
  · intro hmem
    rcases List.mem_append.mp (List.mem_of_mem_take hmem) with hmem | hmem
    · exact h.nonzero hmem
    · exact nonzero hmem

/-- At the beginning of the array a text replaces what is there. -/
theorem snprintf_start (b : CBuffer capacity) {text : List UInt8} (nonzero : 0 ∉ text)
    (room : text.length < capacity) :
    ∃ b', b.snprintf 0 capacity text = some b' ∧ b'.Holds text := by
  obtain ⟨b', hb'⟩ := Option.isSome_iff_exists.mp
    ((b.write_isSome_iff 0 (text ++ [0])).mpr
      (by rw [List.length_append, List.length_singleton]; omega))
  refine ⟨b', ?_, ?_, nonzero⟩
  · rw [CBuffer.snprintf, printed_of_lt room, hb']
  · rw [bytes_of_write hb', List.take_zero, List.nil_append]
    exact List.prefix_append _ _

/-- A text that is padded with zeros. -/
theorem holds_of_padded {b : CBuffer capacity} {t : List UInt8} {n : Nat}
    (padded : b.bytes = t ++ List.replicate (n + 1) 0) (nonzero : 0 ∉ t) : b.Holds t where
  begins := by
    rw [padded, List.prefix_append_right_inj]
    exact List.prefix_append [0] (List.replicate n 0)
  nonzero := nonzero

/-- In zeroed memory zeros follow the copied bytes up to the end. -/
theorem strncpy_zero (text : List UInt8) {n : Nat} (room : n ≤ capacity) :
    ∃ b' : CBuffer capacity, zero.strncpy text n = some b' ∧
      b'.bytes = text.take n ++ List.replicate (capacity - (text.take n).length) 0 := by
  have hlength : (text.take n ++ List.replicate (n - text.length) 0).length = n := by
    rw [List.length_append, List.length_take, List.length_replicate]
    omega
  obtain ⟨b', hb'⟩ := Option.isSome_iff_exists.mp (((zero : CBuffer capacity).write_isSome_iff 0
    (text.take n ++ List.replicate (n - text.length) 0)).mpr (by rw [hlength]; omega))
  refine ⟨b', hb', ?_⟩
  rw [bytes_of_write hb', hlength, zero, Nat.zero_add, List.drop_replicate, List.take_zero,
    List.nil_append, List.append_assoc, List.replicate_append_replicate, List.length_take]
  congr 2
  omega

/-- With the right amount of room `snprintf` stays inside. -/
theorem snprintf_inside {b : CBuffer capacity} {offset : Nat} (inside : offset ≤ capacity)
    (text : List UInt8) : ∃ b', b.snprintf offset (capacity - offset) text = some b' := by
  apply Option.isSome_iff_exists.mp
  rw [CBuffer.snprintf, write_isSome_iff]
  have := length_printed_le (capacity - offset) text
  omega

end CBuffer
