import Coping.Verification.OptionText

/-!
# What the walk over the options reads

The loops over addresses and times read four bytes at a time, up to a multiple of four. They
have a result if and only if all of these bytes can be read, and what they show covers them.
-/

namespace Coping.OptionWalk

section Reads

variable {read : ReadByte} {start n m left : Nat} {fields : List Field} {field : Field}

/-- All of these bytes can be read. -/
def Readable (read : ReadByte) (start n : Nat) : Prop := ∀ i, i < n → (read (start + i)).isSome

theorem readable_add :
    Readable read start (n + m) ↔ Readable read start n ∧ Readable read (start + n) m := by
  constructor
  · intro h
    refine ⟨fun i hi => h i (by omega), fun i hi => ?_⟩
    rw [Nat.add_assoc]
    exact h (n + i) (by omega)
  · rintro ⟨hfirst, hrest⟩ i hi
    by_cases hin : i < n
    · exact hfirst i hin
    · have hi' := hrest (i - n) (by omega)
      rwa [Nat.add_assoc, Nat.add_sub_of_le (Nat.not_lt.mp hin)] at hi'

theorem Readable.mono (h : Readable read start n) (le : m ≤ n) : Readable read start m :=
  fun i hi => h i (Nat.lt_of_lt_of_le hi le)

theorem readable_zero : Readable read start 0 := fun i hi => absurd hi (Nat.not_lt_zero i)

theorem readable_one : Readable read start 1 ↔ (read start).isSome := by
  constructor
  · exact fun h => h 0 Nat.zero_lt_one
  · intro h i hi
    obtain rfl := Nat.lt_one_iff.mp hi
    exact h

theorem readBytes_isSome_iff : ∀ {n start : Nat},
    (readBytes read start n).isSome ↔ Readable read start n
  | 0, start => ⟨fun _ => readable_zero, fun _ => rfl⟩
  | n + 1, start => by
      rw [Nat.add_comm n 1, readable_add, readable_one, Nat.add_comm 1 n, readBytes,
        ← readBytes_isSome_iff]
      cases read start with
      | none => exact ⟨fun h => (by cases h), fun h => (by cases h.1)⟩
      | some c =>
          cases readBytes read (start + 1) n with
          | none => exact ⟨fun h => (by cases h), fun h => (by cases h.2)⟩
          | some rest => exact ⟨fun _ => ⟨rfl, rfl⟩, fun _ => rfl⟩

theorem readField_of_readable (h : Readable read start 4) :
    ∃ field, readField read start = some field ∧ field.offset = start := by
  obtain ⟨bytes, hbytes⟩ := Option.isSome_iff_exists.mp (readBytes_isSome_iff.mpr h)
  refine ⟨⟨start, bytes⟩, ?_, rfl⟩
  rw [readField, hbytes]
  rfl

theorem readField_spec (h : readField read start = some field) :
    Readable read start 4 ∧ field.offset = start := by
  obtain ⟨bytes, hbytes, h⟩ := Option.bind_eq_some_iff.mp h
  cases h
  exact ⟨readBytes_isSome_iff.mp (Option.isSome_iff_exists.mpr ⟨bytes, hbytes⟩), rfl⟩

/-- The bytes of a number of words that has room for these. -/
def wordBytes (left : Nat) : Nat := 4 * ((left + 3) / 4)

theorem wordBytes_last (positive : 0 < left) (last : left ≤ 4) : wordBytes left = 4 := by
  rw [wordBytes]
  omega

theorem wordBytes_more (more : 4 < left) : wordBytes left = 4 + wordBytes (left - 4) := by
  rw [wordBytes, wordBytes]
  omega

/-- The fields lie between two offsets, and one of them reaches the second. -/
structure Covers (fields : List Field) (start stop : Nat) : Prop where
  within : ∀ field ∈ fields, start ≤ field.offset ∧ field.offset + 4 ≤ stop
  reached : ∃ field ∈ fields, field.offset + 4 = stop

theorem covers_single (at_ : field.offset = start) : Covers [field] start (start + 4) where
  within other mem := by
    rw [List.mem_singleton.mp mem]
    omega
  reached := ⟨field, List.mem_singleton_self field, by rw [at_]⟩

theorem Covers.cons {stop : Nat} (h : Covers fields (start + 4) stop) (at_ : field.offset = start) :
    Covers (field :: fields) start stop where
  within other mem := by
    obtain ⟨last, hlast, hstop⟩ := h.reached
    have hbehind := (h.within last hlast).1
    obtain rfl | mem := List.mem_cons.mp mem
    · omega
    · have hother := h.within other mem
      omega
  reached := by
    obtain ⟨last, hlast, hstop⟩ := h.reached
    exact ⟨last, List.mem_cons_of_mem field hlast, hstop⟩

/-- Whether the fields lie in an option is a matter of the last one. -/
theorem Covers.within_iff {base stop bound : Nat} (h : Covers fields start stop)
    (behind : base ≤ start) :
    (∀ field ∈ fields, base ≤ field.offset ∧ field.offset + 4 ≤ bound) ↔ stop ≤ bound := by
  constructor
  · intro hall
    obtain ⟨last, hlast, rfl⟩ := h.reached
    exact (hall last hlast).2
  · intro hle other mem
    obtain ⟨hfrom, hto⟩ := h.within other mem
    exact ⟨Nat.le_trans behind hfrom, Nat.le_trans hto hle⟩

theorem walkRoute_of_readable : ∀ {left start : Nat}, 0 < left →
    Readable read start (wordBytes left) →
    ∃ fields, walkRoute read start left = some fields := by
  intro left start positive h
  rw [walkRoute]
  by_cases hlast : left ≤ 4
  · rw [wordBytes_last positive hlast] at h
    obtain ⟨field, hfield, -⟩ := readField_of_readable h
    rw [hfield, Option.bind_eq_bind, Option.bind_some, if_pos hlast]
    exact ⟨_, rfl⟩
  · rw [wordBytes_more (Nat.not_le.mp hlast), readable_add] at h
    obtain ⟨field, hfield, -⟩ := readField_of_readable h.1
    obtain ⟨rest, hrest⟩ := walkRoute_of_readable (by omega) h.2
    rw [hfield, Option.bind_eq_bind, Option.bind_some, if_neg hlast, hrest]
    exact ⟨_, rfl⟩
termination_by left => left

theorem walkRoute_spec : ∀ {left start : Nat} {fields : List Field}, 0 < left →
    walkRoute read start left = some fields →
    Readable read start (wordBytes left) ∧ Covers fields start (start + wordBytes left) := by
  intro left start fields positive h
  rw [walkRoute] at h
  obtain ⟨field, hfield, h⟩ := Option.bind_eq_some_iff.mp h
  obtain ⟨hreadable, hoffset⟩ := readField_spec hfield
  by_cases hlast : left ≤ 4
  · rw [if_pos hlast] at h
    cases h
    rw [wordBytes_last positive hlast]
    exact ⟨hreadable, covers_single hoffset⟩
  · rw [if_neg hlast] at h
    obtain ⟨rest, hrest, h⟩ := Option.bind_eq_some_iff.mp h
    cases h
    obtain ⟨hrest, hcovers⟩ := walkRoute_spec (by omega) hrest
    rw [wordBytes_more (Nat.not_le.mp hlast), readable_add, ← Nat.add_assoc]
    exact ⟨⟨hreadable, hrest⟩, hcovers.cons hoffset⟩
termination_by left => left

end Reads

/-- The four bytes of a stamp. -/
def Stamp.field : Stamp → Field
  | .address field => field
  | .time shown => shown.field

section Times

variable {read : ReadByte} {start stop n left stdtime nonstdtime : Nat} {addressed : Bool}
variable {stamps address : List Stamp}

theorem showTime_field (field : Field) (stdtime nonstdtime : Nat) :
    (showTime field stdtime nonstdtime).1.field = field := by
  rw [showTime]
  split <;> rfl

/-- The addresses of a stamp, which there are none of or one. -/
theorem stampAddress_of_readable (h : Readable read start (stampSkip addressed)) :
    ∃ address, stampAddress read addressed start = some address := by
  cases addressed with
  | false => exact ⟨[], rfl⟩
  | true =>
      obtain ⟨field, hfield, -⟩ := readField_of_readable h
      rw [stampAddress, if_pos rfl, hfield]
      exact ⟨_, rfl⟩

theorem stampAddress_spec (h : stampAddress read addressed start = some address) :
    Readable read start (stampSkip addressed) ∧
      (addressed = false ∧ address = [] ∨
        addressed = true ∧ ∃ field, address = [.address field] ∧ field.offset = start) := by
  cases addressed with
  | false =>
      cases h
      exact ⟨readable_zero, .inl ⟨rfl, rfl⟩⟩
  | true =>
      obtain ⟨field, hfield, rfl⟩ := Option.map_eq_some_iff.mp h
      obtain ⟨hreadable, hoffset⟩ := readField_spec hfield
      exact ⟨hreadable, .inr ⟨rfl, field, rfl, hoffset⟩⟩

/-- An address before them is covered with the fields. -/
theorem covers_address {fields : List Field} (h : stampAddress read addressed start = some address)
    (covers : Covers fields (start + stampSkip addressed) stop) :
    Covers (address.map Stamp.field ++ fields) start stop := by
  obtain ⟨-, ⟨rfl, rfl⟩ | ⟨rfl, field, rfl, hoffset⟩⟩ := stampAddress_spec h
  · exact covers
  · exact covers.cons hoffset

theorem walkTimes_of_readable : ∀ {left start stdtime nonstdtime : Nat}, 0 < left →
    Readable read start (wordBytes left) →
    ∃ stamps, walkTimes read addressed start left stdtime nonstdtime = some stamps := by
  intro left start stdtime nonstdtime positive h
  have hskip := stampSkip_cases addressed
  have hwords : stampSkip addressed ≤ wordBytes left := by
    rw [wordBytes]
    omega
  obtain ⟨address, haddress⟩ := stampAddress_of_readable (h.mono hwords)
  rw [walkTimes, haddress, Option.bind_eq_bind, Option.bind_some]
  by_cases hshort : left ≤ stampSkip addressed
  · rw [if_pos hshort]
    exact ⟨_, rfl⟩
  have hbytes : wordBytes left = stampSkip addressed + wordBytes (left - stampSkip addressed) := by
    rw [wordBytes, wordBytes]
    omega
  rw [hbytes, readable_add] at h
  have hword : 4 ≤ wordBytes (left - stampSkip addressed) := by
    rw [wordBytes]
    omega
  obtain ⟨field, hfield, -⟩ := readField_of_readable (h.2.mono hword)
  rw [if_neg hshort, hfield, Option.bind_eq_bind, Option.bind_some]
  by_cases hlast : left ≤ stampSkip addressed + 4
  · rw [if_pos hlast]
    exact ⟨_, rfl⟩
  rw [wordBytes_more (by omega), readable_add] at h
  obtain ⟨rest, hrest⟩ := @walkTimes_of_readable (left - stampSkip addressed - 4)
    (start + stampSkip addressed + 4) (showTime field stdtime nonstdtime).2.1
    (showTime field stdtime nonstdtime).2.2 (by omega) h.2.2
  rw [if_neg hlast, hrest]
  exact ⟨_, rfl⟩
termination_by left => left
decreasing_by omega

theorem walkTimes_spec : ∀ {left start stdtime nonstdtime : Nat} {stamps : List Stamp}, 0 < left →
    walkTimes read addressed start left stdtime nonstdtime = some stamps →
    Readable read start (wordBytes left) ∧
      Covers (stamps.map Stamp.field) start (start + wordBytes left) := by
  intro left start stdtime nonstdtime stamps positive h
  rw [walkTimes] at h
  obtain ⟨address, haddress, h⟩ := Option.bind_eq_some_iff.mp h
  obtain ⟨hskip, hkind⟩ := stampAddress_spec haddress
  by_cases hshort : left ≤ stampSkip addressed
  · rw [if_pos hshort] at h
    cases h
    obtain ⟨rfl, rfl⟩ | ⟨rfl, field, rfl, hoffset⟩ := hkind
    · exact absurd hshort (by rw [stampSkip, if_neg Bool.false_ne_true]; omega)
    · rw [wordBytes_last positive hshort]
      exact ⟨hskip, covers_single hoffset⟩
  have hbytes : wordBytes left = stampSkip addressed + wordBytes (left - stampSkip addressed) := by
    obtain ⟨rfl, -⟩ | ⟨rfl, -⟩ := hkind
    · exact (Nat.zero_add _).symm
    · exact wordBytes_more (Nat.not_le.mp hshort)
  rw [if_neg hshort] at h
  obtain ⟨field, hfield, h⟩ := Option.bind_eq_some_iff.mp h
  obtain ⟨hreadable, hoffset⟩ := readField_spec hfield
  rw [hbytes, readable_add, ← Nat.add_assoc]
  by_cases hlast : left ≤ stampSkip addressed + 4
  · rw [if_pos hlast] at h
    cases h
    rw [wordBytes_last (by omega) (by omega), List.map_append]
    refine ⟨⟨hskip, hreadable⟩, covers_address haddress ?_⟩
    apply covers_single
    rw [Stamp.field, showTime_field, hoffset]
  · rw [if_neg hlast] at h
    obtain ⟨rest, hrest, h⟩ := Option.bind_eq_some_iff.mp h
    cases h
    obtain ⟨hrest, hcovers⟩ := walkTimes_spec (by omega) hrest
    rw [wordBytes_more (by omega), readable_add, ← Nat.add_assoc, List.map_append, List.map_cons]
    refine ⟨⟨hskip, hreadable, hrest⟩, covers_address haddress (hcovers.cons ?_)⟩
    rw [Stamp.field, showTime_field, hoffset]
termination_by left => left
decreasing_by omega

end Times

end Coping.OptionWalk
