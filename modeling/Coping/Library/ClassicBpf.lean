import Coping.Library.ByteOrder

/-!
# Classic BPF

Socket filters with an accumulator and an index register, restricted to loads from the packet,
comparisons for equality and returns. A load takes its bytes in network order; one that reaches
behind the end of the packet ends the program with zero. Jumps go forward, by the number of
instructions that they skip, so a program always ends. A packet is dropped if the result is zero.
-/

namespace ClassicBpf

inductive Size where
  | byte
  | half
  deriving DecidableEq

inductive Insn where
  /-- `BPF_LD | BPF_ABS`. -/
  | ldAbs (size : Size) (k : UInt32)
  /-- `BPF_LD | BPF_IND`. -/
  | ldInd (size : Size) (k : UInt32)
  /-- `BPF_LDX | BPF_B | BPF_MSH`: four times the lower half of a byte. -/
  | ldxMsh (k : UInt32)
  /-- `BPF_JMP | BPF_JEQ | BPF_K`. -/
  | jeq (k : UInt32) (jt jf : Nat)
  /-- `BPF_RET | BPF_K`. -/
  | ret (k : UInt32)
  deriving DecidableEq

/-- A load from the packet, if it is inside. -/
def load (packet : List UInt8) (size : Size) (offset : Nat) : Option UInt32 :=
  match size with
  | .byte => (packet[offset]?).map UInt8.toUInt32
  | .half => do
      let high ← packet[offset]?
      let low ← packet[offset + 1]?
      some (ByteOrder.word16 high low).toUInt32

/-- The rest of a program, of which some instructions are skipped. -/
def exec (packet : List UInt8) : List Insn → Nat → UInt32 → UInt32 → UInt32
  | [], _, _, _ => 0
  | _ :: rest, skip + 1, a, x => exec packet rest skip a x
  | .ldAbs size k :: rest, 0, _, x =>
      match load packet size k.toNat with
      | none => 0
      | some v => exec packet rest 0 v x
  | .ldInd size k :: rest, 0, _, x =>
      match load packet size (x + k).toNat with
      | none => 0
      | some v => exec packet rest 0 v x
  | .ldxMsh k :: rest, 0, a, _ =>
      match load packet .byte k.toNat with
      | none => 0
      | some v => exec packet rest 0 a ((v &&& 0xf) <<< 2)
  | .jeq k jt jf :: rest, 0, a, x => exec packet rest (if a = k then jt else jf) a x
  | .ret k :: _, 0, _, _ => k

def accepts (program : List Insn) (packet : List UInt8) : Bool := exec packet program 0 0 0 ≠ 0

theorem load_byte {packet : List UInt8} {offset : Nat} {b : UInt8}
    (inside : packet[offset]? = some b) : load packet .byte offset = some b.toUInt32 := by
  rw [load, inside]
  rfl

theorem load_half {packet : List UInt8} {offset : Nat} {high low : UInt8}
    (first : packet[offset]? = some high) (second : packet[offset + 1]? = some low) :
    load packet .half offset = some (ByteOrder.word16 high low).toUInt32 := by
  rw [load, first, second]
  rfl

/-- A filter that lets pass what has one value in its first field, and of the rest what has another
value than `kind` in its second field. -/
theorem exec_unless {packet : List UInt8} {first second : Insn} {v w value kind pass pass' : UInt32}
    {a x : UInt32}
    (loadFirst : ∀ rest a, exec packet (first :: rest) 0 a x = exec packet rest 0 v x)
    (loadSecond : ∀ rest a, exec packet (second :: rest) 0 a x = exec packet rest 0 w x)
    (passes : pass ≠ 0) (passes' : pass' ≠ 0) :
    exec packet
        [first, .jeq value 0 1, .ret pass, second, .jeq kind 1 0, .ret pass', .ret 0] 0 a x ≠ 0 ↔
      v = value ∨ w ≠ kind := by
  rw [loadFirst, exec]
  by_cases hvalue : v = value
  · rw [if_pos hvalue]
    exact iff_of_true passes (.inl hvalue)
  · rw [if_neg hvalue, or_iff_right hvalue]
    change exec packet (second :: _) 0 _ _ ≠ 0 ↔ _
    rw [loadSecond, exec]
    by_cases hkind : w = kind
    · rw [if_pos hkind]
      exact iff_of_false (not_not_intro rfl) (not_not_intro hkind)
    · rw [if_neg hkind]
      exact iff_of_true passes' hkind

end ClassicBpf
