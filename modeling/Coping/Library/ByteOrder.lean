import Mathlib.Algebra.Order.Ring.Nat

/-!
# Words of two and of four bytes

A word of 16 bits in memory, on a host of either byte order, and `htons`, which is its
own inverse. Behind `htons` a word is stored with its high byte first on both. A word of 32
bits is the number that its bytes are digits of.
-/

inductive ByteOrder where
  | little
  | big
  deriving DecidableEq

namespace ByteOrder

/-- The word whose high byte comes first. -/
def word16 (high low : UInt8) : UInt16 := UInt16.ofNat (256 * high.toNat + low.toNat)

/-- The word in two bytes of memory. -/
def load16 (o : ByteOrder) (b0 b1 : UInt8) : UInt16 :=
  match o with
  | little => word16 b1 b0
  | big => word16 b0 b1

/-- The two bytes of a word. -/
def store16 (o : ByteOrder) (x : UInt16) : UInt8 × UInt8 :=
  let high := UInt8.ofNat (x.toNat / 256)
  let low := UInt8.ofNat (x.toNat % 256)
  match o with
  | little => (low, high)
  | big => (high, low)

def htons (o : ByteOrder) (x : UInt16) : UInt16 :=
  match o with
  | little => word16 (UInt8.ofNat (x.toNat % 256)) (UInt8.ofNat (x.toNat / 256))
  | big => x

theorem word16_toNat (high low : UInt8) :
    (word16 high low).toNat = 256 * high.toNat + low.toNat := by
  have hhigh := high.toNat_lt
  have hlow := low.toNat_lt
  rw [word16, UInt16.toNat_ofNat']
  omega

theorem word16_high (high low : UInt8) :
    UInt8.ofNat ((word16 high low).toNat / 256) = high := by
  have hlow := low.toNat_lt
  rw [word16_toNat, Nat.mul_add_div (by decide), Nat.div_eq_of_lt hlow, Nat.add_zero,
    UInt8.ofNat_toNat]

theorem word16_low (high low : UInt8) :
    UInt8.ofNat ((word16 high low).toNat % 256) = low := by
  have hlow := low.toNat_lt
  rw [word16_toNat, Nat.mul_add_mod, Nat.mod_eq_of_lt hlow, UInt8.ofNat_toNat]

theorem word16_bytes (x : UInt16) :
    word16 (UInt8.ofNat (x.toNat / 256)) (UInt8.ofNat (x.toNat % 256)) = x := by
  have hx := x.toNat_lt
  apply UInt16.toNat_inj.mp
  rw [word16_toNat, UInt8.toNat_ofNat', UInt8.toNat_ofNat']
  omega

/-- A word in memory determines its bytes. -/
theorem load16_inj {o : ByteOrder} {a0 a1 b0 b1 : UInt8} :
    o.load16 a0 a1 = o.load16 b0 b1 ↔ a0 = b0 ∧ a1 = b1 := by
  have hword : ∀ {a b c d : UInt8}, word16 a b = word16 c d → a = c ∧ b = d := by
    intro a b c d h
    constructor
    · rw [← word16_high a b, h, word16_high]
    · rw [← word16_low a b, h, word16_low]
  constructor
  · intro h
    cases o with
    | little => exact (hword h).symm
    | big => exact hword h
  · rintro ⟨rfl, rfl⟩
    rfl

/-- A word that arrived is turned into the number that was sent. -/
theorem htons_load16 (o : ByteOrder) (b0 b1 : UInt8) :
    o.htons (o.load16 b0 b1) = word16 b0 b1 := by
  cases o with
  | little =>
      change word16 (UInt8.ofNat ((word16 b1 b0).toNat % 256))
        (UInt8.ofNat ((word16 b1 b0).toNat / 256)) = _
      rw [word16_low, word16_high]
  | big => rfl

/-- A number that is sent has its high byte first. -/
theorem store16_htons (o : ByteOrder) (x : UInt16) :
    o.store16 (o.htons x) = (UInt8.ofNat (x.toNat / 256), UInt8.ofNat (x.toNat % 256)) := by
  cases o with
  | little =>
      simp only [store16, htons]
      rw [word16_low, word16_high]
  | big => rfl

theorem htons_htons (o : ByteOrder) (x : UInt16) : o.htons (o.htons x) = x := by
  cases o with
  | little =>
      simp only [htons]
      rw [word16_low, word16_high, word16_bytes]
  | big => rfl

/-! ## Words of four bytes -/

/-- The word whose highest byte comes first. -/
def word32 (b3 b2 b1 b0 : UInt8) : UInt32 :=
  UInt32.ofNat (2 ^ 24 * b3.toNat + 2 ^ 16 * b2.toNat + 2 ^ 8 * b1.toNat + b0.toNat)

/-- The word in four bytes of memory. -/
def load32 (o : ByteOrder) (b0 b1 b2 b3 : UInt8) : UInt32 :=
  match o with
  | little => word32 b3 b2 b1 b0
  | big => word32 b0 b1 b2 b3

/-- The four bytes of a word. -/
def store32 (o : ByteOrder) (x : UInt32) : List UInt8 :=
  let b0 := UInt8.ofNat x.toNat
  let b1 := UInt8.ofNat (x.toNat / 2 ^ 8)
  let b2 := UInt8.ofNat (x.toNat / 2 ^ 16)
  let b3 := UInt8.ofNat (x.toNat / 2 ^ 24)
  match o with
  | little => [b0, b1, b2, b3]
  | big => [b3, b2, b1, b0]

@[simp] theorem length_store32 (o : ByteOrder) (x : UInt32) : (o.store32 x).length = 4 := by
  cases o <;> rfl

theorem word32_toNat (b3 b2 b1 b0 : UInt8) :
    (word32 b3 b2 b1 b0).toNat =
      2 ^ 24 * b3.toNat + 2 ^ 16 * b2.toNat + 2 ^ 8 * b1.toNat + b0.toNat := by
  have h3 := b3.toNat_lt
  have h2 := b2.toNat_lt
  have h1 := b1.toNat_lt
  have h0 := b0.toNat_lt
  rw [word32, UInt32.toNat_ofNat']
  omega

theorem word32_bytes (x : UInt32) :
    word32 (UInt8.ofNat (x.toNat / 2 ^ 24)) (UInt8.ofNat (x.toNat / 2 ^ 16))
      (UInt8.ofNat (x.toNat / 2 ^ 8)) (UInt8.ofNat x.toNat) = x := by
  have hx := x.toNat_lt
  apply UInt32.toNat_inj.mp
  rw [word32_toNat, UInt8.toNat_ofNat', UInt8.toNat_ofNat', UInt8.toNat_ofNat',
    UInt8.toNat_ofNat']
  omega

/-- What is read from memory was written there. -/
theorem store32_eq_iff {o : ByteOrder} {x : UInt32} {b0 b1 b2 b3 : UInt8} :
    o.store32 x = [b0, b1, b2, b3] ↔ o.load32 b0 b1 b2 b3 = x := by
  have hbyte : ∀ (n : Nat) (b : UInt8), n % 256 = b.toNat → UInt8.ofNat n = b := by
    intro n b hn
    apply UInt8.toNat_inj.mp
    rw [UInt8.toNat_ofNat', hn]
  have hdigits : ∀ a b c d : UInt8,
      UInt8.ofNat (word32 a b c d).toNat = d ∧ UInt8.ofNat ((word32 a b c d).toNat / 2 ^ 8) = c ∧
        UInt8.ofNat ((word32 a b c d).toNat / 2 ^ 16) = b ∧
        UInt8.ofNat ((word32 a b c d).toNat / 2 ^ 24) = a := by
    intro a b c d
    have ha := a.toNat_lt
    have hb := b.toNat_lt
    have hc := c.toNat_lt
    have hd := d.toNat_lt
    rw [word32_toNat]
    exact ⟨hbyte _ _ (by omega), hbyte _ _ (by omega), hbyte _ _ (by omega), hbyte _ _ (by omega)⟩
  constructor
  · intro h
    cases o with
    | little =>
        obtain ⟨rfl, rfl, rfl, rfl⟩ : _ = b0 ∧ _ = b1 ∧ _ = b2 ∧ _ = b3 := by
          simpa [store32] using h
        exact word32_bytes x
    | big =>
        obtain ⟨rfl, rfl, rfl, rfl⟩ : _ = b0 ∧ _ = b1 ∧ _ = b2 ∧ _ = b3 := by
          simpa [store32] using h
        exact word32_bytes x
  · rintro rfl
    cases o with
    | little =>
        obtain ⟨h0, h1, h2, h3⟩ := hdigits b3 b2 b1 b0
        simp only [load32, store32, h0, h1, h2, h3]
    | big =>
        obtain ⟨h0, h1, h2, h3⟩ := hdigits b0 b1 b2 b3
        simp only [load32, store32, h0, h1, h2, h3]

end ByteOrder
