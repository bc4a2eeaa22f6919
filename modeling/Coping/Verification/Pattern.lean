import Coping.Ping.Pattern
import Mathlib.Tactic.Ring

/-!
# What the pattern covers

The pattern is copied as often as it fits behind the header, and not a part of it once more. A
payload that reaches into the rest of the buffer ends with the bytes that were there before.
-/

namespace Coping.Pattern

open CFormat

/-- The number that hexadecimal digits stand for. -/
def hexNumber (ds : List UInt8) : Nat := ds.foldl (fun n c => 16 * n + xdigitValue c) 0

/-- The bytes of a pattern: two digits each, the last one maybe one, and sixteen at most. -/
def patternBytes (patp : List UInt8) : List UInt8 :=
  (List.range (min 16 ((patp.length + 1) / 2))).map fun j =>
    UInt8.ofNat (hexNumber ((patp.drop (2 * j)).take 2))

/-- The part of the payload that whole copies of a pattern of `k` bytes fill. -/
def covered (k : Nat) : Nat := k * ((MAXPACKET - 8) / k)

/-- `fill` stays inside of the buffer, and the payload is the pattern over and over. -/
def PatternFilled (optQuiet : Bool) (patp : List UInt8) (packet : CBuffer MAXPACKET)
    (datalen : Nat) : Prop :=
  ∃ filled, fill optQuiet patp packet MAXPACKET = .ok filled ∧
    ∀ i, i < datalen →
      filled.packet.bytes[8 + i]? = (patternBytes patp)[i % (patternBytes patp).length]?

/-! ## The bytes of the pattern -/

theorem scanPattern_eq (n : Nat) (text : List UInt8) :
    scanPattern n text = (List.range (min n ((text.length + 1) / 2))).map fun j =>
      UInt8.ofNat (hexNumber ((text.drop (2 * j)).take 2)) := by
  induction n, text using scanPattern.induct with
  | case1 text => simp [scanPattern]
  | case2 n => simp [scanPattern]
  | case3 n c =>
      have hone : min (n + 1) (([c].length + 1) / 2) = 1 := by
        simp
      rw [scanPattern, hone]
      simp [hexNumber]
  | case4 n c d text ih =>
      have hcount : min (n + 1) (((c :: d :: text).length + 1) / 2) =
          min n ((text.length + 1) / 2) + 1 := by
        rw [List.length_cons, List.length_cons]
        omega
      have hpair : 16 * xdigitValue c + xdigitValue d = hexNumber [c, d] := by
        simp [hexNumber]
      rw [scanPattern, ih, hcount, List.range_succ_eq_map, List.map_cons, List.map_map, hpair]
      rfl

theorem scanPattern_sixteen (patp : List UInt8) : scanPattern 16 patp = patternBytes patp :=
  scanPattern_eq 16 patp

theorem patternBytes_length (patp : List UInt8) :
    (patternBytes patp).length = min 16 ((patp.length + 1) / 2) := by
  rw [patternBytes, List.length_map, List.length_range]

/-! ## The loop -/

section Loop

variable {capacity : Nat} {pat : List UInt8}

/-- The byte of the payload at an index. -/
def payload (packet : CBuffer capacity) (i : Nat) : Option UInt8 := packet.bytes[8 + i]?

/-- One copy. -/
theorem write_payload {packet filled : CBuffer capacity} {kk : Nat}
    (h : packet.write (8 + kk) pat = some filled) (i : Nat) :
    payload filled i = if kk ≤ i ∧ i < kk + pat.length then pat[i - kk]? else payload packet i := by
  have hinside : 8 + kk + pat.length ≤ capacity :=
    (packet.write_isSome_iff (8 + kk) pat).mp (Option.isSome_of_mem h)
  have hlength := packet.length_bytes
  rw [payload, payload, CBuffer.bytes_of_write h, getElem?_written (by omega)]
  by_cases hcopy : kk ≤ i ∧ i < kk + pat.length
  · rw [if_pos hcopy, if_pos (by omega)]
    congr 1
    omega
  · rw [if_neg hcopy, if_neg (by omega)]

/-- From a multiple of its length on, the pattern is copied up to the last whole one. The
induction is on the copies that are left. -/
theorem fillLoop_spec (positive : 0 < pat.length) {limit : Nat}
    (inside : 8 + (limit + pat.length) ≤ capacity) (left : Nat) :
    ∀ (packet : CBuffer capacity) (m : Nat), m + left = limit / pat.length + 1 →
      ∃ filled, fillLoop pat limit packet (pat.length * m) = some filled ∧
        ∀ i, payload filled i =
          if pat.length * m ≤ i ∧ i < pat.length * (limit / pat.length + 1) then
            pat[i % pat.length]?
          else payload packet i := by
  induction left with
  | zero =>
      intro packet m hm
      have hend : limit < pat.length * m := by
        rw [Nat.add_zero] at hm
        rw [hm]
        exact Nat.lt_mul_div_succ limit positive
      refine ⟨packet, ?_, fun i => ?_⟩
      · rw [fillLoop, if_neg (by omega)]
      · rw [if_neg (by rw [← hm, Nat.add_zero]; omega)]
  | succ left ih =>
      intro packet m hm
      have hcopy : pat.length * m ≤ limit := by
        refine le_trans (Nat.mul_le_mul_left _ (by omega)) (Nat.mul_div_le limit pat.length)
      have hnext : pat.length * m + pat.length = pat.length * (m + 1) := by ring
      obtain ⟨copied, hcopied⟩ := Option.isSome_iff_exists.mp
        ((packet.write_isSome_iff (8 + pat.length * m) pat).mpr (by omega))
      obtain ⟨filled, hfilled, hpayload⟩ := ih copied (m + 1) (by omega)
      refine ⟨filled, ?_, fun i => ?_⟩
      · rw [fillLoop, if_pos ⟨hcopy, positive⟩, hcopied, Option.bind_some, hnext, hfilled]
      · have hlast : pat.length * (m + 1) ≤ pat.length * (limit / pat.length + 1) :=
          Nat.mul_le_mul_left _ (by omega)
        rw [hpayload]
        by_cases hlater : pat.length * (m + 1) ≤ i ∧ i < pat.length * (limit / pat.length + 1)
        · rw [if_pos hlater, if_pos ⟨by omega, hlater.2⟩]
        · rw [if_neg hlater, write_payload hcopied]
          by_cases hthis : pat.length * m ≤ i ∧ i < pat.length * m + pat.length
          · have hrest : i % pat.length = i - pat.length * m := by
              have hsplit : i = i - pat.length * m + pat.length * m := by omega
              conv_lhs => rw [hsplit, Nat.add_mul_mod_self_left]
              exact Nat.mod_eq_of_lt (by omega)
            rw [if_pos hthis, if_pos ⟨hthis.1, by omega⟩, hrest]
          · rw [if_neg hthis, if_neg (by omega)]

/-- The whole loop, from the beginning of the payload. -/
theorem fillLoop_start (positive : 0 < pat.length) {limit : Nat}
    (inside : 8 + (limit + pat.length) ≤ capacity) (packet : CBuffer capacity) :
    ∃ filled, fillLoop pat limit packet 0 = some filled ∧
      ∀ i, payload filled i =
        if i < pat.length * (limit / pat.length + 1) then pat[i % pat.length]?
        else payload packet i := by
  obtain ⟨filled, hfilled, hpayload⟩ :=
    fillLoop_spec positive inside (limit / pat.length + 1) packet 0 (Nat.zero_add _)
  refine ⟨filled, hfilled, fun i => ?_⟩
  rw [hpayload, Nat.mul_zero]
  simp

end Loop

/-! ## The whole pattern -/

section Fill

variable {patp : List UInt8}

theorem patternBytes_bounds (nonempty : patp ≠ []) :
    0 < (patternBytes patp).length ∧ (patternBytes patp).length ≤ 16 := by
  have hpositive := List.length_pos_of_ne_nil nonempty
  rw [patternBytes_length]
  omega

/-- What is written, and nothing outside. -/
theorem fill_spec (optQuiet : Bool) (hex : patp.all isxdigit = true) (nonempty : patp ≠ [])
    (packet : CBuffer MAXPACKET) :
    ∃ filled, fill optQuiet patp packet MAXPACKET = .ok filled ∧
      ∀ i, payload filled.packet i =
        if i < covered (patternBytes patp).length then
          (patternBytes patp)[i % (patternBytes patp).length]?
        else payload packet i := by
  obtain ⟨hpositive, hle⟩ := patternBytes_bounds nonempty
  have hlimit : (CInt.toUInt32 (MAXPACKET - (8 + (patternBytes patp).length))).toNat =
      MAXPACKET - 8 - (patternBytes patp).length := by
    simp only [CInt.toUInt32, MAXPACKET]
    omega
  have hcopies : (MAXPACKET - 8 - (patternBytes patp).length) / (patternBytes patp).length + 1 =
      (MAXPACKET - 8) / (patternBytes patp).length := by
    rw [← Nat.add_div_right _ hpositive, Nat.sub_add_cancel (by simp only [MAXPACKET]; omega)]
  have hinside : 8 + (MAXPACKET - 8 - (patternBytes patp).length + (patternBytes patp).length) ≤
      MAXPACKET := by
    simp only [MAXPACKET]
    omega
  obtain ⟨filled, hfilled, hpayload⟩ := fillLoop_start hpositive hinside packet
  rw [fill, if_neg (by rw [hex]; decide)]
  dsimp only
  rw [scanPattern_sixteen, hlimit, hfilled, covered, ← hcopies]
  exact ⟨_, rfl, hpayload⟩

end Fill

/-- The payload is the pattern over and over exactly when what whole copies leave of it was so
before. -/
theorem pattern_filled (optQuiet : Bool) (patp : List UInt8) (packet : CBuffer MAXPACKET)
    (datalen : Nat) (hex : patp.all isxdigit = true) (nonempty : patp ≠ []) :
    PatternFilled optQuiet patp packet datalen ↔
      ∀ i, covered (patternBytes patp).length ≤ i → i < datalen →
        packet.bytes[8 + i]? = (patternBytes patp)[i % (patternBytes patp).length]? := by
  obtain ⟨filled, hfilled, hpayload⟩ := fill_spec optQuiet hex nonempty packet
  constructor
  · rintro ⟨filled', hfilled', hpattern⟩ i hcovered hi
    cases hfilled.symm.trans hfilled'
    rw [← hpattern i hi]
    exact ((hpayload i).trans (if_neg (Nat.not_lt.mpr hcovered))).symm
  · intro hbefore
    refine ⟨filled, hfilled, fun i hi => (hpayload i).trans ?_⟩
    split
    · rfl
    next hcovered => exact hbefore i (Nat.not_lt.mp hcovered) hi

/-- `-p ff01` with `-s 65526` in a buffer of zeros. -/
theorem pattern_filled_even :
    ((ascii "ff01").all isxdigit = true ∧ ascii "ff01" ≠ []) ∧
      (PatternFilled false (ascii "ff01") CBuffer.zero 65526 ↔
        ∀ i, covered (patternBytes (ascii "ff01")).length ≤ i → i < 65526 →
          (CBuffer.zero : CBuffer MAXPACKET).bytes[8 + i]? =
            (patternBytes (ascii "ff01"))[i % (patternBytes (ascii "ff01")).length]?) := by
  have hhex : (ascii "ff01").all isxdigit = true := by decide
  have hsome : ascii "ff01" ≠ [] := by decide
  exact ⟨⟨hhex, hsome⟩, pattern_filled false _ _ 65526 hhex hsome⟩

/-- One byte more: the last of them is a zero. -/
theorem pattern_unfilled : ¬PatternFilled false (ascii "ff01") CBuffer.zero 65527 := by
  obtain ⟨filled, hfilled, hpayload⟩ :=
    @fill_spec (ascii "ff01") false (by decide) (by decide) CBuffer.zero
  rintro ⟨filled', hfilled', hpattern⟩
  cases hfilled.symm.trans hfilled'
  have hlast : payload filled.packet 65526 = some 0 := by
    rw [hpayload, if_neg (by decide), payload, CBuffer.zero, List.getElem?_replicate,
      if_pos (by decide)]
  exact absurd (hlast.symm.trans (hpattern 65526 (by decide))) (by decide)

end Coping.Pattern
