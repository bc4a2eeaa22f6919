import Coping.Library.MessageDigest
import Coping.Library.SineTable
import Coping.Ping.Md5
import Mathlib.Data.List.GetD

/-!
# MD5

The transform is unrolled in the source: its constants, the words that it takes and the
amounts of its rotations are literals, and two of its functions are rewritten. It is the
compression of the standard, whose constants come from the sine. Over it, a digest does not
depend on how the input is cut into parts, nor on the byte order of the host.
-/

namespace Coping.Md5

open MessageDigest (auxiliary wordIndex rotation sineConstant operation exchange compress blockWords
  rotateLeft lengthBytes zeros padded)

/-! ## The constants -/

/-- The literals of the 64 steps. -/
def stepConstants : List UInt32 :=
  [
    0xd76aa478, 0xe8c7b756, 0x242070db, 0xc1bdceee, 0xf57c0faf, 0x4787c62a, 0xa8304613, 0xfd469501,
    0x698098d8, 0x8b44f7af, 0xffff5bb1, 0x895cd7be, 0x6b901122, 0xfd987193, 0xa679438e, 0x49b40821,
    0xf61e2562, 0xc040b340, 0x265e5a51, 0xe9b6c7aa, 0xd62f105d, 0x02441453, 0xd8a1e681, 0xe7d3fbc8,
    0x21e1cde6, 0xc33707d6, 0xf4d50d87, 0x455a14ed, 0xa9e3e905, 0xfcefa3f8, 0x676f02d9, 0x8d2a4c8a,
    0xfffa3942, 0x8771f681, 0x6d9d6122, 0xfde5380c, 0xa4beea44, 0x4bdecfa9, 0xf6bb4b60, 0xbebfbc70,
    0x289b7ec6, 0xeaa127fa, 0xd4ef3085, 0x04881d05, 0xd9d4d039, 0xe6db99e5, 0x1fa27cf8, 0xc4ac5665,
    0xf4292244, 0x432aff97, 0xab9423a7, 0xfc93a039, 0x655b59c3, 0x8f0ccc92, 0xffeff47d, 0x85845dd1,
    0x6fa87e4f, 0xfe2ce6e0, 0xa3014314, 0x4e0811a1, 0xf7537e82, 0xbd3af235, 0x2ad7d2bb, 0xeb86d391]

def stepConstant (i : Nat) : UInt32 := stepConstants.getD i 0

/-- What `SineTable.floor_sine` asks of a constant. -/
def Between (i : Nat) : Prop :=
  ((stepConstant i).toNat : Int) * 2 ^ 48 ≤ |(SineTable.approx i).2| - 8 * (i + 1) ∧
    |(SineTable.approx i).2| + 8 * (i + 1) < ((stepConstant i).toNat + 1) * 2 ^ 48

instance : DecidablePred Between := fun _ => inferInstanceAs (Decidable (_ ∧ _))

theorem between_of_lt : ∀ i < 64, Between i := by decide +kernel

theorem stepConstant_eq {i : Nat} (lt : i < 64) : stepConstant i = sineConstant i := by
  obtain ⟨hlower, hupper⟩ := between_of_lt i lt
  have hfloor := SineTable.floor_sine (by omega) hlower hupper
  rw [sineConstant, hfloor, UInt32.ofNat_toNat]

/-! ## The transform -/

/-- The function of the `i`-th step. -/
def stepFunction (i : Nat) : UInt32 → UInt32 → UInt32 → UInt32 :=
  match i / 16 with
  | 0 => F1
  | 1 => F2
  | 2 => F3
  | _ => F4

/-- What the `i`-th step makes of the variable that it changes. -/
def stepValue (input : Vector UInt32 16) (i : Nat) (w x y z : UInt32) : UInt32 :=
  md5step (stepFunction i) w x y z (input.get (wordIndex i) + stepConstant i) (rotation i)

def step (input : Vector UInt32 16) (v : Vector UInt32 4) (i : Nat) : Vector UInt32 4 :=
  exchange v (stepValue input i)

/-- Behind four steps every variable is in its place again. -/
theorem foldl_four {input : Vector UInt32 16} {i : Nat} {a b c d a' b' c' d' : UInt32}
    (ha : a' = stepValue input i a b c d) (hd : d' = stepValue input (i + 1) d a' b c)
    (hc : c' = stepValue input (i + 2) c d' a' b)
    (hb : b' = stepValue input (i + 3) b c' d' a') :
    (List.range' i 4).foldl (step input) #v[a, b, c, d] = #v[a', b', c', d'] := by
  subst hb hc hd ha
  rfl

theorem foldl_sixteen {input : Vector UInt32 16} {i : Nat} {v v0 v1 v2 v3 v4 : Vector UInt32 4}
    (h0 : v = v0) (h1 : (List.range' i 4).foldl (step input) v0 = v1)
    (h2 : (List.range' (i + 4) 4).foldl (step input) v1 = v2)
    (h3 : (List.range' (i + 8) 4).foldl (step input) v2 = v3)
    (h4 : (List.range' (i + 12) 4).foldl (step input) v3 = v4) :
    (List.range' i 16).foldl (step input) v = v4 := by
  have hrange : List.range' i 16 = List.range' i 4 ++ List.range' (i + 4) 4 ++
      List.range' (i + 8) 4 ++ List.range' (i + 12) 4 := rfl
  rw [hrange, List.foldl_append, List.foldl_append, List.foldl_append, h0, h1, h2, h3, h4]

theorem eta4 (v : Vector UInt32 4) : v = #v[v.get 0, v.get 1, v.get 2, v.get 3] := by
  ext i hi
  match i, hi with
  | 0, _ | 1, _ | 2, _ | 3, _ => rfl

theorem round1_eq (input : Vector UInt32 16) (v : Vector UInt32 4) :
    round1 input v = (List.range' 0 16).foldl (step input) v := by
  unfold round1
  extract_lets a b c d a1 d1 c1 b1 a2 d2 c2 b2 a3 d3 c3 b3 a4 d4 c4 b4
  have h1 := @foldl_four input 0 a b c d a1 b1 c1 d1 rfl rfl rfl rfl
  have h2 := @foldl_four input 4 a1 b1 c1 d1 a2 b2 c2 d2 rfl rfl rfl rfl
  have h3 := @foldl_four input 8 a2 b2 c2 d2 a3 b3 c3 d3 rfl rfl rfl rfl
  have h4 := @foldl_four input 12 a3 b3 c3 d3 a4 b4 c4 d4 rfl rfl rfl rfl
  exact (foldl_sixteen (eta4 v) h1 h2 h3 h4).symm

theorem round2_eq (input : Vector UInt32 16) (v : Vector UInt32 4) :
    round2 input v = (List.range' 16 16).foldl (step input) v := by
  unfold round2
  extract_lets a b c d a1 d1 c1 b1 a2 d2 c2 b2 a3 d3 c3 b3 a4 d4 c4 b4
  have h1 := @foldl_four input 16 a b c d a1 b1 c1 d1 rfl rfl rfl rfl
  have h2 := @foldl_four input 20 a1 b1 c1 d1 a2 b2 c2 d2 rfl rfl rfl rfl
  have h3 := @foldl_four input 24 a2 b2 c2 d2 a3 b3 c3 d3 rfl rfl rfl rfl
  have h4 := @foldl_four input 28 a3 b3 c3 d3 a4 b4 c4 d4 rfl rfl rfl rfl
  exact (foldl_sixteen (eta4 v) h1 h2 h3 h4).symm

theorem round3_eq (input : Vector UInt32 16) (v : Vector UInt32 4) :
    round3 input v = (List.range' 32 16).foldl (step input) v := by
  unfold round3
  extract_lets a b c d a1 d1 c1 b1 a2 d2 c2 b2 a3 d3 c3 b3 a4 d4 c4 b4
  have h1 := @foldl_four input 32 a b c d a1 b1 c1 d1 rfl rfl rfl rfl
  have h2 := @foldl_four input 36 a1 b1 c1 d1 a2 b2 c2 d2 rfl rfl rfl rfl
  have h3 := @foldl_four input 40 a2 b2 c2 d2 a3 b3 c3 d3 rfl rfl rfl rfl
  have h4 := @foldl_four input 44 a3 b3 c3 d3 a4 b4 c4 d4 rfl rfl rfl rfl
  exact (foldl_sixteen (eta4 v) h1 h2 h3 h4).symm

theorem round4_eq (input : Vector UInt32 16) (v : Vector UInt32 4) :
    round4 input v = (List.range' 48 16).foldl (step input) v := by
  unfold round4
  extract_lets a b c d a1 d1 c1 b1 a2 d2 c2 b2 a3 d3 c3 b3 a4 d4 c4 b4
  have h1 := @foldl_four input 48 a b c d a1 b1 c1 d1 rfl rfl rfl rfl
  have h2 := @foldl_four input 52 a1 b1 c1 d1 a2 b2 c2 d2 rfl rfl rfl rfl
  have h3 := @foldl_four input 56 a2 b2 c2 d2 a3 b3 c3 d3 rfl rfl rfl rfl
  have h4 := @foldl_four input 60 a3 b3 c3 d3 a4 b4 c4 d4 rfl rfl rfl rfl
  exact (foldl_sixteen (eta4 v) h1 h2 h3 h4).symm

/-- A choice bit by bit. -/
theorem F1_eq : F1 = MessageDigest.F := by
  funext x y z
  apply UInt32.toBitVec_inj.mp
  ext i hi
  simp only [F1, MessageDigest.F, UInt32.toBitVec_xor, UInt32.toBitVec_and, UInt32.toBitVec_or,
    UInt32.toBitVec_not, BitVec.getElem_xor, BitVec.getElem_and, BitVec.getElem_or,
    BitVec.getElem_not]
  cases x.toBitVec[i] <;> cases y.toBitVec[i] <;> cases z.toBitVec[i] <;> rfl

theorem F2_eq : F2 = MessageDigest.G := by
  funext x y z
  apply UInt32.toBitVec_inj.mp
  ext i hi
  simp only [F2, F1, MessageDigest.G, UInt32.toBitVec_xor, UInt32.toBitVec_and,
    UInt32.toBitVec_or, UInt32.toBitVec_not, BitVec.getElem_xor, BitVec.getElem_and,
    BitVec.getElem_or, BitVec.getElem_not]
  cases x.toBitVec[i] <;> cases y.toBitVec[i] <;> cases z.toBitVec[i] <;> rfl

theorem stepFunction_eq (i : Nat) : stepFunction i = auxiliary i := by
  rw [stepFunction, auxiliary, F1_eq, F2_eq]
  rfl

theorem md5step_eq (f : UInt32 → UInt32 → UInt32 → UInt32) (w x y z word constant s : UInt32) :
    md5step f w x y z (word + constant) s =
      x + rotateLeft (w + f x y z + word + constant) s := by
  have hsum : w + (f x y z + (word + constant)) = w + f x y z + word + constant := by
    rw [UInt32.add_assoc, UInt32.add_assoc]
  rw [md5step, rotateLeft, hsum]
  exact UInt32.add_comm _ x

theorem step_eq (input : Vector UInt32 16) (v : Vector UInt32 4) {i : Nat} (lt : i < 64) :
    step input v i = operation input v i := by
  rw [step, operation]
  congr 1
  funext a b c d
  rw [stepValue, md5step_eq, stepFunction_eq, stepConstant_eq lt]

/-- The unrolled transform is the compression of the standard. -/
theorem transform_eq_compress (buf : Vector UInt32 4) (input : Vector UInt32 16) :
    iputilsMd5Transform buf input = compress buf input := by
  have hrange : List.range 64 =
      List.range' 0 16 ++ (List.range' 16 16 ++ (List.range' 32 16 ++ List.range' 48 16)) := rfl
  have hsteps : (List.range 64).foldl (operation input) buf =
      round4 input (round3 input (round2 input (round1 input buf))) := by
    rw [round1_eq, round2_eq, round3_eq, round4_eq, ← List.foldl_append, ← List.foldl_append,
      ← List.foldl_append, ← hrange]
    exact List.foldl_ext _ _ _ fun v i hi => (step_eq input v (List.mem_range.mp hi)).symm
  rw [iputilsMd5Transform, compress, hsteps]
  ext i hi
  match i, hi with
  | 0, _ | 1, _ | 2, _ | 3, _ => simp [Vector.getElem_zipWith]

/-! ## The words of the input -/

/-- The `i`-th word of some bytes. -/
def wordAt (order : ByteOrder) (bytes : List UInt8) (i : Nat) : UInt32 :=
  order.load32 (bytes.getD (4 * i) 0) (bytes.getD (4 * i + 1) 0) (bytes.getD (4 * i + 2) 0)
    (bytes.getD (4 * i + 3) 0)

/-- Behind `byteReverse` the host reads the words whose low byte comes first. -/
theorem wordAt_byteReverse {order : ByteOrder} {longs : Nat} {bytes : List UInt8} {i : Nat}
    (inside : i < longs) (long : 4 * i + 4 ≤ bytes.length) :
    wordAt order (byteReverse order longs bytes) i = wordAt .little bytes i := by
  fun_induction byteReverse order longs bytes generalizing i with
  | case1 longs b0 b1 b2 b3 rest ih =>
      have hstore : ByteOrder.big.store32 (ByteOrder.word32 b3 b2 b1 b0) = [b3, b2, b1, b0] :=
        ByteOrder.store32_eq_iff.mpr rfl
      rw [hstore]
      cases i with
      | zero => rfl
      | succ i =>
          simp only [List.length_cons] at long
          exact ih (Nat.lt_of_succ_lt_succ inside) (by omega)
  | case2 longs order bytes other =>
      cases order with
      | little => rfl
      | big =>
          obtain ⟨longs, rfl⟩ := Nat.exists_eq_add_one_of_ne_zero (Nat.ne_zero_of_lt inside)
          have hlong : 3 < bytes.length := by omega
          have hbytes := List.drop_eq_getElem_cons (Nat.zero_lt_of_lt hlong)
          rw [List.drop_zero, List.drop_eq_getElem_cons (by omega),
            List.drop_eq_getElem_cons (by omega), List.drop_eq_getElem_cons hlong] at hbytes
          exact absurd hbytes (other _ _ _ _ _ _ rfl rfl)

theorem inputWords_reversed (order : ByteOrder) (input : CBuffer 64) :
    inputWords order (reversed order 16 input) = blockWords input.bytes := by
  have hlength := input.length_bytes
  apply congrArg Vector.ofFn
  funext i
  exact wordAt_byteReverse i.isLt (by omega)

/-! ## The bytes that are taken in -/

/-- Whole blocks are compressed, and the rest of the bytes is kept. -/
theorem updateBlocks_spec (order : ByteOrder) (ctx : IputilsMd5Context) (buf : List UInt8) :
    ∃ ctx', updateBlocks order ctx buf = some ctx' ∧ ctx'.bits = ctx.bits ∧
      ctx'.buf = MessageDigest.absorb ctx.buf buf ∧
      BlockHash.pending 64 buf <+: ctx'.input.bytes := by
  induction hlength : buf.length using Nat.strongRecOn generalizing ctx buf with
  | ind length ih =>
      rw [updateBlocks]
      split
      next hlong =>
        have htake : (buf.take 64).length = 64 := List.length_take_of_le hlong
        obtain ⟨input, hwrite, hinput⟩ := @CBuffer.write_behind 64 ctx.input []
          (buf.take 64) List.nil_prefix (by rw [htake]; decide)
        have hbytes : input.bytes = buf.take 64 :=
          (hinput.eq_of_length (by rw [List.nil_append, htake, input.length_bytes])).symm
        obtain ⟨ctx', hupdate, hbits, hbuf, hpending⟩ := ih (buf.drop 64).length
          (by rw [List.length_drop]; omega)
          (transformInput order { ctx with input := input }) (buf.drop 64) rfl
        refine ⟨ctx', ?_, hbits, ?_, ?_⟩
        · rw [List.length_nil] at hwrite
          rw [hwrite]
          exact hupdate
        · rw [hbuf, MessageDigest.absorb, MessageDigest.absorb,
            BlockHash.absorb_step (by decide) hlong, ← hbytes]
          rw [transformInput, transform_eq_compress, inputWords_reversed]
        · rwa [BlockHash.pending_step (by decide) hlong]
      next hshort =>
        obtain ⟨input, hwrite, hinput⟩ := @CBuffer.write_behind 64 ctx.input [] buf
          List.nil_prefix (by rw [List.length_nil]; omega)
        refine ⟨{ ctx with input := input }, ?_, rfl, ?_, ?_⟩
        · rw [List.length_nil] at hwrite
          rw [hwrite]
          rfl
        · exact (BlockHash.absorb_of_lt (Nat.not_le.mp hshort)).symm
        · rwa [BlockHash.pending_of_lt (Nat.not_le.mp hshort)]

/-- The 64-bit counter. -/
def bitCount (bits : Vector UInt32 2) : Nat := (bits.get 0).toNat + 2 ^ 32 * (bits.get 1).toNat

/-- The context has taken in a message. -/
structure Holds (ctx : IputilsMd5Context) (message : List UInt8) : Prop where
  buf : ctx.buf = MessageDigest.absorb MessageDigest.initial message
  bits : bitCount ctx.bits = 8 * message.length % 2 ^ 64
  pending : BlockHash.pending 64 message <+: ctx.input.bytes

theorem Holds.init (input : CBuffer 64) : Holds (iputilsMd5Init input) [] where
  buf := (BlockHash.absorb_of_lt (by decide)).symm
  bits := rfl
  pending := List.nil_prefix

/-- The carry and the high bits of the length make up for what the low word loses. -/
theorem updatedBits_eq {bits : Vector UInt32 2} {n len : Nat} (small : len < 2 ^ 32)
    (h : bitCount bits = 8 * n % 2 ^ 64) :
    bitCount (updatedBits bits (UInt32.ofNat len)) = 8 * (n + len) % 2 ^ 64 := by
  change bits[0].toNat + 2 ^ 32 * bits[1].toNat = _ at h
  have hlen : (UInt32.ofNat len).toNat = len := UInt32.toNat_ofNat_of_lt' small
  have hlow : (bits[0] + UInt32.ofNat len <<< 3).toNat = (bits[0].toNat + 8 * len) % 2 ^ 32 := by
    rw [UInt32.toNat_add, UInt32.toNat_shiftLeft, hlen]
    change (bits[0].toNat + len <<< 3 % 2 ^ 32) % 2 ^ 32 = _
    rw [Nat.shiftLeft_eq]
    omega
  have hhigh : (UInt32.ofNat len >>> 29).toNat = len / 2 ^ 29 := by
    rw [UInt32.toNat_shiftRight, hlen]
    exact Nat.shiftRight_eq_div_pow len 29
  have hbits0 := bits[0].toNat_lt
  have hbits1 := bits[1].toNat_lt
  obtain ⟨low, hl⟩ : ∃ low, low = bits[0] + UInt32.ofNat len <<< 3 := ⟨_, rfl⟩
  have hupdated : updatedBits bits (UInt32.ofNat len) =
      #v[low, (if low < bits[0] then bits[1] + 1 else bits[1]) + UInt32.ofNat len >>> 29] := by
    rw [hl]
    rfl
  rw [← hl] at hlow
  rw [hupdated]
  change low.toNat + 2 ^ 32 * ((if low < bits[0] then bits[1] + 1 else bits[1]) +
    UInt32.ofNat len >>> 29).toNat = _
  rw [UInt32.toNat_add, hhigh, hlow]
  split
  next hcarry =>
    rw [UInt32.lt_iff_toNat_lt, hlow] at hcarry
    rw [UInt32.toNat_add]
    change _ + 2 ^ 32 * (((bits[1].toNat + 1) % 2 ^ 32 + _) % 2 ^ 32) = _
    omega
  next hcarry =>
    rw [UInt32.lt_iff_toNat_lt, hlow] at hcarry
    omega

/-- The bytes already in the input. -/
theorem Holds.used {ctx : IputilsMd5Context} {message : List UInt8} (h : Holds ctx message) :
    bytesMod64 ctx.bits = (BlockHash.pending 64 message).length := by
  have hbits0 := ctx.bits[0].toNat_lt
  have hbits := h.bits
  change ctx.bits[0].toNat + 2 ^ 32 * ctx.bits[1].toNat = _ at hbits
  rw [BlockHash.length_pending, bytesMod64, UInt32.toNat_and, UInt32.toNat_shiftRight]
  change ctx.bits[0].toNat >>> 3 &&& 2 ^ 6 - 1 = _
  rw [Nat.and_two_pow_sub_one_eq_mod, Nat.shiftRight_eq_div_pow]
  omega

theorem Holds.update {ctx : IputilsMd5Context} {message : List UInt8} (h : Holds ctx message)
    (order : ByteOrder) (chunk : Chunk) :
    ∃ ctx', iputilsMd5Update order ctx chunk = some ctx' ∧
      Holds ctx' (message ++ chunk.bytes) := by
  have hbits := updatedBits_eq chunk.small h.bits
  have hsize : (BlockHash.pending 64 message).length < 64 := by
    rw [BlockHash.length_pending]
    exact Nat.mod_lt _ (by decide)
  have habsorb := @BlockHash.absorb_append _ _ 64 (fun v block => compress v (blockWords block))
    (by decide) MessageDigest.initial message chunk.bytes
  have hpending := @BlockHash.pending_append _ 64 (by decide) message chunk.bytes
  rw [← List.length_append] at hbits
  obtain ⟨p, hp⟩ : ∃ p, p = BlockHash.pending 64 message := ⟨_, rfl⟩
  rw [iputilsMd5Update, h.used, ← hp]
  rw [← hp] at hsize habsorb hpending
  dsimp only
  split
  next hsome =>
    split
    next hshort =>
      have hfits : (p ++ chunk.bytes).length < 64 := by
        rw [List.length_append]
        omega
      obtain ⟨input, hwrite, hinput⟩ := @CBuffer.write_behind 64 ctx.input p
        chunk.bytes (hp ▸ h.pending) (by rw [← List.length_append]; omega)
      rw [hwrite]
      refine ⟨_, rfl, ?_, hbits, ?_⟩
      · exact h.buf.trans ((BlockHash.absorb_of_lt hfits).symm.trans habsorb.symm)
      · rwa [hpending, BlockHash.pending_of_lt hfits]
    next hlong =>
      have htake : (chunk.bytes.take (64 - p.length)).length = 64 - p.length :=
        List.length_take_of_le (Nat.not_lt.mp hlong)
      have hblock : (p ++ chunk.bytes.take (64 - p.length)).length = 64 := by
        rw [List.length_append, htake]
        omega
      have hsplit : p ++ chunk.bytes =
          p ++ chunk.bytes.take (64 - p.length) ++ chunk.bytes.drop (64 - p.length) := by
        rw [List.append_assoc, List.take_append_drop]
      obtain ⟨input, hwrite, hinput⟩ := @CBuffer.write_behind 64 ctx.input p
        (chunk.bytes.take (64 - p.length)) (hp ▸ h.pending)
        (by rw [← List.length_append, hblock])
      have hbytes := hinput.eq_of_length (by rw [hblock, input.length_bytes])
      obtain ⟨ctx', hupdate, hbits', hbuf, hrest⟩ := updateBlocks_spec order
        (transformInput order
          { ctx with
            bits := updatedBits ctx.bits (UInt32.ofNat chunk.bytes.length), input := input })
        (chunk.bytes.drop (64 - p.length))
      rw [hwrite]
      refine ⟨ctx', hupdate, ?_, hbits' ▸ hbits, ?_⟩
      · rw [hbuf, transformInput, transform_eq_compress, inputWords_reversed, ← hbytes, h.buf,
          MessageDigest.absorb, MessageDigest.absorb, MessageDigest.absorb, habsorb, hsplit,
          BlockHash.absorb_append_of_length (by decide) hblock]
      · rwa [hpending, hsplit, BlockHash.pending_append_of_length (by decide) hblock]
  next hnone =>
    have hempty : p = [] := List.eq_nil_of_length_eq_zero (Nat.eq_zero_of_not_pos (by omega))
    rw [hempty, List.nil_append] at habsorb hpending
    obtain ⟨ctx', hupdate, hbits', hbuf, hrest⟩ := updateBlocks_spec order
      { ctx with bits := updatedBits ctx.bits (UInt32.ofNat chunk.bytes.length) } chunk.bytes
    refine ⟨ctx', hupdate, ?_, hbits' ▸ hbits, hpending ▸ hrest⟩
    rw [hbuf, h.buf]
    exact habsorb.symm

theorem Holds.updates {ctx : IputilsMd5Context} {message : List UInt8} (h : Holds ctx message)
    (order : ByteOrder) (chunks : List Chunk) :
    ∃ ctx', chunks.foldlM (iputilsMd5Update order) ctx = some ctx' ∧
      Holds ctx' (message ++ chunks.flatMap (·.bytes)) := by
  induction chunks generalizing ctx message with
  | nil => exact ⟨ctx, rfl, by rwa [List.flatMap_nil, List.append_nil]⟩
  | cons chunk chunks ih =>
      obtain ⟨next, hnext, hholds⟩ := h.update order chunk
      obtain ⟨last, hlast, hall⟩ := ih hholds
      refine ⟨last, ?_, ?_⟩
      · rw [List.foldlM_cons, hnext]
        exact hlast
      · rwa [List.flatMap_cons, ← List.append_assoc]

/-! ## The last blocks -/

theorem wordAt_append {order : ByteOrder} {xs : List UInt8} {i : Nat}
    (inside : 4 * i + 4 ≤ xs.length) (ys : List UInt8) :
    wordAt order (xs ++ ys) i = wordAt order xs i := by
  rw [wordAt, wordAt, List.getD_append _ _ _ _ (by omega), List.getD_append _ _ _ _ (by omega),
    List.getD_append _ _ _ _ (by omega), List.getD_append _ _ _ _ (by omega)]

/-- A stored word is read again. -/
theorem wordAt_store32 {order : ByteOrder} {xs : List UInt8} {i : Nat}
    (position : xs.length = 4 * i) (x : UInt32) (ys : List UInt8) :
    wordAt order (xs ++ (order.store32 x ++ ys)) i = x := by
  obtain ⟨b0, b1, b2, b3, hbytes⟩ : ∃ b0 b1 b2 b3, order.store32 x = [b0, b1, b2, b3] := by
    cases order <;> exact ⟨_, _, _, _, rfl⟩
  have hread : ∀ j, (xs ++ (order.store32 x ++ ys)).getD (4 * i + j) 0 =
      (order.store32 x ++ ys).getD j 0 := by
    intro j
    rw [List.getD_append_right _ _ _ _ (by omega), position, Nat.add_sub_cancel_left]
  have hfirst := hread 0
  rw [Nat.add_zero] at hfirst
  rw [wordAt, hfirst, hread, hread, hread, hbytes]
  exact ByteOrder.store32_eq_iff.mp hbytes

/-- The last block: its first 14 words are those of `in`, and the words of the length are
stored behind them as the host stores words. -/
theorem inputWords_last {order : ByteOrder} {input last : CBuffer 64} {front : List UInt8}
    {n : Nat} {low high : UInt32} (begins : front <+: input.bytes) (size : front.length = 56)
    (bytes : last.bytes = (reversed order 14 input).bytes.take 56 ++
      (order.store32 low ++ (order.store32 high ++ [])))
    (length : low.toNat + 2 ^ 32 * high.toNat = n % 2 ^ 64) :
    inputWords order last = blockWords (front ++ lengthBytes n) := by
  have hlow := low.toNat_lt
  have hlow_eq : UInt32.ofNat n = low := by
    apply UInt32.toNat_inj.mp
    rw [UInt32.toNat_ofNat']
    omega
  have hhigh := high.toNat_lt
  have hhigh_eq : UInt32.ofNat (n / 2 ^ 32) = high := by
    apply UInt32.toNat_inj.mp
    rw [UInt32.toNat_ofNat']
    omega
  obtain ⟨behind, hbehind⟩ := begins
  have hinput := input.length_bytes
  have hreversed := (reversed order 14 input).length_bytes
  have htake : ((reversed order 14 input).bytes.take 56).length = 56 :=
    List.length_take_of_le (by omega)
  rw [lengthBytes, hlow_eq, hhigh_eq]
  apply congrArg Vector.ofFn
  funext i
  change wordAt order last.bytes i =
    wordAt .little (front ++ (ByteOrder.little.store32 low ++ ByteOrder.little.store32 high)) i
  rw [bytes]
  rcases Nat.lt_trichotomy i.val 14 with hbefore | hlow | hafter
  · have hkept : wordAt order ((reversed order 14 input).bytes.take 56) i =
        wordAt order (reversed order 14 input).bytes i := by
      rw [← wordAt_append (by omega) ((reversed order 14 input).bytes.drop 56),
        List.take_append_drop]
    rw [wordAt_append (by omega), wordAt_append (by omega), hkept, reversed,
      wordAt_byteReverse hbefore (by omega), ← hbehind, wordAt_append (by omega)]
  · rw [wordAt_store32 (by omega), wordAt_store32 (by omega)]
  · have hlast : i.val = 15 := by omega
    rw [← List.append_assoc, wordAt_store32 (by simp [htake, hlast]),
      ← List.append_nil (ByteOrder.little.store32 high), ← List.append_assoc,
      wordAt_store32 (by simp [size, hlast])]

/-- Padding leaves a block to be completed by the length. -/
theorem Holds.pad {ctx : IputilsMd5Context} {message : List UInt8} (h : Holds ctx message)
    (order : ByteOrder) :
    ∃ ctx' front, padInput order ctx = some ctx' ∧ ctx'.bits = ctx.bits ∧
      front <+: ctx'.input.bytes ∧ front.length = 56 ∧
      MessageDigest.absorb MessageDigest.initial (padded message) =
        compress ctx'.buf (blockWords (front ++ lengthBytes (8 * message.length))) := by
  have hsize := @BlockHash.length_pending _ 64 message
  have hmod := Nat.mod_lt message.length (show 0 < 64 by decide)
  have habsorb := @BlockHash.absorb_append _ _ 64 (fun v block => compress v (blockWords block))
    (by decide) MessageDigest.initial message
    (0x80 :: List.replicate (zeros message.length) 0 ++ lengthBytes (8 * message.length))
  have hzeros : zeros message.length = (119 - message.length % 64) % 64 := rfl
  have hlast : (lengthBytes (8 * message.length)).length = 8 := rfl
  obtain ⟨p, hp⟩ : ∃ p, p = BlockHash.pending 64 message := ⟨_, rfl⟩
  rw [padInput, h.used, MessageDigest.absorb, padded, List.append_assoc, habsorb, ← hp]
  rw [← hp] at hsize
  obtain ⟨marked, hmark, hmarked⟩ := @CBuffer.write_behind 64 ctx.input p [0x80]
    (hp ▸ h.pending) (by rw [List.length_singleton]; omega)
  have hposition : p.length + 1 = (p ++ [0x80]).length := by
    rw [List.length_append, List.length_singleton]
  simp only [hmark, Option.bind_eq_bind, Option.bind_some]
  split
  next htwo =>
    have hblock : (p ++ [0x80] ++ List.replicate (64 - 1 - p.length) 0).length = 64 := by
      rw [List.length_append, List.length_replicate, ← hposition]
      omega
    obtain ⟨filled, hfill, hfilled⟩ := CBuffer.write_behind hmarked
      (by rw [← List.length_append, hblock])
    have hbytes := hfilled.eq_of_length (by rw [hblock, filled.length_bytes])
    have hsplit : p ++ (0x80 :: List.replicate (zeros message.length) 0 ++
          lengthBytes (8 * message.length)) =
        p ++ [0x80] ++ List.replicate (64 - 1 - p.length) 0 ++
          (List.replicate 56 0 ++ lengthBytes (8 * message.length)) := by
      have hcount : zeros message.length = 64 - 1 - p.length + 56 := by omega
      simp [hcount, List.replicate_add]
    rw [← hposition] at hfill
    rw [hfill, Option.bind_some]
    generalize ht : transformInput order { ctx with input := filled } = t
    have hbuf : t.buf = compress ctx.buf (blockWords filled.bytes) := by
      rw [← ht, transformInput, transform_eq_compress, inputWords_reversed]
    have hbits : t.bits = ctx.bits := by rw [← ht, transformInput]
    obtain ⟨cleared, hclear, hcleared⟩ := @CBuffer.write_behind 64 t.input []
      (List.replicate 56 0) List.nil_prefix (by rw [List.length_replicate]; decide)
    rw [List.length_nil] at hclear
    rw [List.nil_append] at hcleared
    rw [hclear, Option.bind_some]
    refine ⟨_, _, rfl, hbits, hcleared, List.length_replicate, ?_⟩
    rw [hsplit, BlockHash.absorb_append_of_length (by decide) hblock,
      BlockHash.absorb_of_length (by decide)
        (by rw [List.length_append, List.length_replicate, hlast]),
      hbuf, hbytes, h.buf, MessageDigest.absorb]
  next hone =>
    have hfront : (p ++ [0x80] ++ List.replicate (64 - 1 - p.length - 8) 0).length = 56 := by
      rw [List.length_append, List.length_replicate, ← hposition]
      omega
    obtain ⟨filled, hfill, hfilled⟩ := CBuffer.write_behind hmarked
      (by rw [← List.length_append, hfront]; decide)
    have hsplit : p ++ (0x80 :: List.replicate (zeros message.length) 0 ++
          lengthBytes (8 * message.length)) =
        p ++ [0x80] ++ List.replicate (64 - 1 - p.length - 8) 0 ++
          lengthBytes (8 * message.length) := by
      have hcount : zeros message.length = 64 - 1 - p.length - 8 := by omega
      simp [hcount]
    rw [← hposition] at hfill
    rw [hfill, Option.bind_some]
    refine ⟨_, _, rfl, rfl, hfilled, hfront, ?_⟩
    rw [hsplit, BlockHash.absorb_of_length (by decide)
      (by rw [List.length_append, hfront, hlast]), h.buf, MessageDigest.absorb]

/-- The words of a chaining value are stored with their low byte first. -/
theorem byteReverse_stored (order : ByteOrder) (words : List UInt32) :
    byteReverse order words.length (words.flatMap order.store32) =
      words.flatMap ByteOrder.little.store32 := by
  cases order with
  | little =>
      cases words with
      | nil => rfl
      | cons x words => rfl
  | big =>
      induction words with
      | nil => rfl
      | cons x words ih =>
          rw [List.flatMap_cons, List.flatMap_cons, ← ih]
          exact congrArg (· ++ _) (ByteOrder.store32_eq_iff.mpr rfl)

theorem Holds.final {order : ByteOrder} {ctx : IputilsMd5Context} {message : List UInt8}
    (h : Holds ctx message) :
    iputilsMd5Final order ctx = some (MessageDigest.digest message) := by
  obtain ⟨ctx', front, hpad, hbits, hfront, hsize, hdigest⟩ := h.pad order
  obtain ⟨rev, hrev⟩ : ∃ rev, rev = reversed order 14 ctx'.input := ⟨_, rfl⟩
  have hlength := rev.length_bytes
  have htake : (rev.bytes.take 56).length = 56 := List.length_take_of_le (by omega)
  obtain ⟨low, hlow, hbehind⟩ := @CBuffer.write_behind 64 rev (rev.bytes.take 56)
    (order.store32 ctx'.bits[0]) (List.take_prefix 56 rev.bytes)
    (by rw [htake, ByteOrder.length_store32]; decide)
  have hfilled : (rev.bytes.take 56 ++ order.store32 ctx'.bits[0]).length = 60 := by
    rw [List.length_append, htake, ByteOrder.length_store32]
  obtain ⟨last, hlast, hwhole⟩ := @CBuffer.write_behind 64 low _
    (order.store32 ctx'.bits[1]) hbehind (by rw [hfilled, ByteOrder.length_store32])
  have hbytes := hwhole.eq_of_length
    (by rw [List.length_append, hfilled, ByteOrder.length_store32, last.length_bytes])
  have hblock : last.bytes = rev.bytes.take 56 ++
      (order.store32 ctx'.bits[0] ++ (order.store32 ctx'.bits[1] ++ [])) := by
    rw [← hbytes, List.append_nil, List.append_assoc]
  have hwords : inputWords order last = blockWords (front ++ lengthBytes (8 * message.length)) := by
    rw [hrev] at hblock
    refine inputWords_last hfront hsize hblock ?_
    rw [hbits]
    exact h.bits
  rw [htake] at hlow
  rw [hfilled] at hlast
  change rev.write (14 * 4) _ = _ at hlow
  change low.write (15 * 4) _ = _ at hlast
  rw [iputilsMd5Final, hpad, Option.bind_eq_bind, Option.bind_some, ← hrev]
  dsimp only
  rw [hlow, Option.bind_eq_bind, Option.bind_some, hlast, Option.bind_some]
  rw [hwords, transform_eq_compress, ← hdigest]
  have hstored := byteReverse_stored order
    (MessageDigest.absorb MessageDigest.initial (padded message)).toList
  rw [Vector.length_toList] at hstored
  exact congrArg some hstored

theorem hashChunks_eq_digest (order : ByteOrder) (input : CBuffer 64) (chunks : List Chunk) :
    hashChunks order input chunks = some (MessageDigest.digest (chunks.flatMap (·.bytes))) := by
  obtain ⟨ctx, hctx, hholds⟩ := (Holds.init input).updates order chunks
  rw [hashChunks, hctx, Option.bind_some]
  exact hholds.final

/-! ## The results -/

/-- A block that was written as bytes is compressed as the standard says, on a host of either byte
order. -/
theorem transformInput_correct (order : ByteOrder) (ctx : IputilsMd5Context) :
    (transformInput order ctx).buf = compress ctx.buf (blockWords ctx.input.bytes) := by
  rw [transformInput, transform_eq_compress, inputWords_reversed]

/-- A digest is that of the concatenation of the parts, on a host of either byte order, and
nothing is written outside the context. -/
theorem hashChunks_correct (order : ByteOrder) (input : CBuffer 64) (chunks : List Chunk) :
    ∃ digest, hashChunks order input chunks = some digest ∧ digest.length = 16 ∧
      digest = MessageDigest.digest (chunks.flatMap (·.bytes)) :=
  ⟨_, hashChunks_eq_digest order input chunks, MessageDigest.length_digest _, rfl⟩

end Coping.Md5
