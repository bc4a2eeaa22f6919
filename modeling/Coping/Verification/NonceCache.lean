import Coping.Library.Calls
import Coping.Ping.NodeInfo
import Coping.Ping.Wire

/-!
# The digest that niquery_nonce keeps

The digest in the static variables belongs to the sequence number next to it, or there is none yet.
So a digest that is not computed again is the one that would be computed, whatever nonces were
checked before.
-/

namespace Coping.NodeInfo

variable (host : NonceHost)

/-- The part of a nonce that follows from its first two bytes. -/
def digestOf (b0 b1 : UInt8) : Vector UInt8 6 := digestHead (host.md5 (host.secret ++ [b0, b1]))

/-- The nonce of a sequence number. -/
def nonceOf (seq : UInt16) : Nonce :=
  let b0 := UInt8.ofNat (seq.toNat / 256)
  let b1 := UInt8.ofNat (seq.toNat % 256)
  ⟨b0, b1, digestOf host b0 b1⟩

/-- The sequence number in a nonce. -/
def seqOf (nonce : Nonce) : UInt16 := ByteOrder.word16 nonce.seq0 nonce.seq1

/-- The static variables are those of some two bytes, or still unused. -/
def Cached (static : NonceCache) : Prop :=
  static.seq ≠ -1 → ∃ b0 b1, static.seq = (host.order.load16 b0 b1).toNat ∧
    static.digest = host.md5 (host.secret ++ [b0, b1])

/-- The call with static variables that were never used: the digest is computed. -/
def recomputed (c : NonceCall) : NonceAnswer := (c.run host {}).2

theorem cached_start : Cached host {} := fun hused => absurd rfl hused

/-! ## One call -/

variable {host}

/-- The static variables are those of the nonce, also when they were kept. -/
theorem refresh_eq {static : NonceCache} (h : Cached host static) (nonce : Nonce) (fill : Bool) :
    refresh host static nonce fill =
      { digest := host.md5 (host.secret ++ [nonce.seq0, nonce.seq1])
        seq := (host.order.load16 nonce.seq0 nonce.seq1).toNat } := by
  rw [refresh]
  split
  · rfl
  next hkept =>
    simp only [not_or, Decidable.not_not] at hkept
    obtain ⟨-, hseq, hused⟩ := hkept
    obtain ⟨b0, b1, hword, hdigest⟩ := h hused
    have hsame : host.order.load16 b0 b1 = host.order.load16 nonce.seq0 nonce.seq1 :=
      UInt16.toNat_inj.mp (Int.ofNat_inj.mp (hword.symm.trans hseq))
    obtain ⟨rfl, rfl⟩ := ByteOrder.load16_inj.mp hsame
    rw [← hdigest, ← hword]

theorem cached_refresh {static : NonceCache} (h : Cached host static) (nonce : Nonce)
    (fill : Bool) : Cached host (refresh host static nonce fill) := by
  intro _
  rw [refresh_eq h]
  exact ⟨_, _, rfl, rfl⟩

theorem niqueryNonce_static (static : NonceCache) (nonce : Nonce) (fill : Bool) :
    (niqueryNonce host static nonce fill).1 = refresh host static nonce fill := by
  simp only [niqueryNonce]
  split
  · rfl
  split
  · rfl
  · rfl

theorem cached_run {static : NonceCache} (h : Cached host static) (c : NonceCall) :
    Cached host (c.run host static).1 := by
  cases c with
  | fill seq =>
      simp only [NonceCall.run, niqueryFillNonce, niqueryNonce_static]
      exact cached_refresh h _ _
  | check nonce =>
      simp only [NonceCall.run, niqueryCheckNonce, niqueryNonce_static]
      exact cached_refresh h _ _

/-- `niquery_fill_nonce` yields the nonce of its number. -/
theorem niqueryFillNonce_eq {static : NonceCache} (h : Cached host static) (seq : UInt16) :
    (niqueryFillNonce host static seq).2 = nonceOf host seq := by
  simp only [niqueryFillNonce, niqueryNonce, refresh_eq h, if_true, host.order.store16_htons]
  rfl

/-- Only the digest of a nonce can be wrong. -/
theorem eq_nonceOf_iff (nonce : Nonce) :
    nonce = nonceOf host (seqOf nonce) ↔
      nonce.digest = digestOf host nonce.seq0 nonce.seq1 := by
  have hnonce : nonceOf host (seqOf nonce) =
      ⟨nonce.seq0, nonce.seq1, digestOf host nonce.seq0 nonce.seq1⟩ := by
    simp only [nonceOf, seqOf, ByteOrder.word16_high, ByteOrder.word16_low]
  rw [hnonce]
  constructor
  · intro h
    exact congrArg Nonce.digest h
  · intro h
    rw [← h]

theorem seqOf_nonceOf (seq : UInt16) : seqOf (nonceOf host seq) = seq :=
  ByteOrder.word16_bytes seq

/-- `niquery_check_nonce` compares with the nonce of the number that it finds. -/
theorem niqueryCheckNonce_eq {static : NonceCache} (h : Cached host static) (nonce : Nonce) :
    (niqueryCheckNonce host static nonce).2 =
      if nonce = nonceOf host (seqOf nonce) then ((seqOf nonce).toNat : Int) else -1 := by
  have hhead : digestHead (host.md5 (host.secret ++ [nonce.seq0, nonce.seq1])) =
      digestOf host nonce.seq0 nonce.seq1 := rfl
  simp only [niqueryCheckNonce, niqueryNonce, refresh_eq h, Bool.false_eq_true, if_false, hhead,
    host.order.htons_load16]
  by_cases hdigest : nonce.digest = digestOf host nonce.seq0 nonce.seq1
  · rw [if_neg (not_not_intro hdigest), if_pos ((eq_nonceOf_iff nonce).mpr hdigest)]
    rfl
  · rw [if_pos hdigest, if_neg fun h => hdigest ((eq_nonceOf_iff nonce).mp h)]

theorem run_eq {static : NonceCache} (h : Cached host static) (c : NonceCall) :
    (c.run host static).2 = recomputed host c := by
  cases c with
  | fill seq =>
      simp only [recomputed, NonceCall.run, niqueryFillNonce_eq h,
        niqueryFillNonce_eq (cached_start host)]
  | check nonce =>
      simp only [recomputed, NonceCall.run, niqueryCheckNonce_eq h,
        niqueryCheckNonce_eq (cached_start host)]

/-! ## Rows of calls -/

/-- The static variables behind a row of calls. -/
def later (host : NonceHost) (calls : List NonceCall) : NonceCache :=
  Calls.after (NonceCall.run host) {} calls

theorem cached_later (calls : List NonceCall) : Cached host (later host calls) :=
  Calls.after_invariant (cached_start host) (fun _ c h => cached_run h c) calls

/-- What is kept from call to call changes no result. A nonce is accepted under a number exactly if
that number is filled in as this nonce, and rejected if there is no such number. -/
theorem nonce_cache_exact (host : NonceHost) :
    (∀ calls : List NonceCall,
      Calls.answers (NonceCall.run host) {} calls = calls.map (recomputed host)) ∧
    (∀ (before before' : List NonceCall) (nonce : Nonce) (seq : UInt16),
      (niqueryCheckNonce host (later host before) nonce).2 = seq.toNat ↔
        nonce = (niqueryFillNonce host (later host before') seq).2) ∧
    ∀ (before before' : List NonceCall) (nonce : Nonce),
      (niqueryCheckNonce host (later host before) nonce).2 = -1 ↔
        ∀ seq, nonce ≠ (niqueryFillNonce host (later host before') seq).2 := by
  refine ⟨?_, ?_, ?_⟩
  · intro calls
    exact Calls.answers_eq_map (cached_start host) (fun _ c h => cached_run h c)
      (fun _ c h => run_eq h c) calls
  · intro before before' nonce seq
    rw [niqueryCheckNonce_eq (cached_later before), niqueryFillNonce_eq (cached_later before')]
    constructor
    · intro hresult
      split at hresult
      next hnonce =>
        rw [← UInt16.toNat_inj.mp (Int.ofNat_inj.mp hresult)]
        exact hnonce
      · omega
    · rintro rfl
      rw [seqOf_nonceOf, if_pos rfl]
  · intro before before' nonce
    rw [niqueryCheckNonce_eq (cached_later before)]
    simp only [niqueryFillNonce_eq (cached_later before')]
    constructor
    · rintro hresult seq rfl
      rw [seqOf_nonceOf, if_pos rfl] at hresult
      omega
    · intro hnone
      rw [if_neg (hnone (seqOf nonce))]

/-! ## The packets -/

/-- `ni` with the digests that `niquery_nonce` has for every number, as its static variables are:
what it fills in, or what it compares with. -/
def served (host : NonceHost) (static : NonceCache) (fill : Bool) (ni : PingNi) : PingNi :=
  { ni with
    digest := fun seq =>
      digestHead (refresh host static
        ⟨UInt8.ofNat (seq.toNat / 256), UInt8.ofNat (seq.toNat % 256), Vector.replicate 6 0⟩
        fill).digest }

/-- The bytes of a nonce. -/
def Nonce.bytes (nonce : Nonce) : List UInt8 := [nonce.seq0, nonce.seq1] ++ nonce.digest.toList

theorem Nonce.bytes_inj {nonce nonce' : Nonce} (h : nonce.bytes = nonce'.bytes) :
    nonce = nonce' := by
  obtain ⟨seq0, seq1, digest⟩ := nonce
  obtain ⟨seq0', seq1', digest'⟩ := nonce'
  simp only [Nonce.bytes, List.cons_append, List.nil_append, List.cons.injEq] at h
  obtain ⟨rfl, rfl, hdigest⟩ := h
  cases Vector.toList_inj.mp hdigest
  rfl

/-- The bytes that are sent are those of the nonce that is filled in. -/
theorem fill_served (static : NonceCache) (ni : PingNi) (seq : UInt16) :
    Coping.niqueryFillNonce (served host static true ni) seq =
      (niqueryFillNonce host static seq).2.bytes := by
  simp only [niqueryFillNonce, niqueryNonce, host.order.store16_htons, if_true]
  rw [Coping.niqueryFillNonce, be16_eq]
  rfl

/-- A reply is counted exactly if its nonce is accepted. -/
theorem check_served (static : NonceCache) (ni : PingNi) {reply : NiReply} {nonce : Nonce}
    (seq : reply.nonceSeq = seqOf nonce) (digest : reply.nonceDigest = nonce.digest) :
    Coping.niqueryCheckNonce (served host static false ni) reply = true ↔
      0 ≤ (niqueryCheckNonce host static nonce).2 := by
  have hserved : (served host static false ni).digest reply.nonceSeq =
      digestHead (refresh host static nonce false).digest := by
    rw [seq]
    simp only [served, seqOf, ByteOrder.word16_high, ByteOrder.word16_low]
    rfl
  rw [Coping.niqueryCheckNonce, decide_eq_true_iff, hserved, digest]
  simp only [niqueryCheckNonce, niqueryNonce, Bool.false_eq_true, if_false]
  split
  next hwrong =>
    exact ⟨fun h => absurd h.symm hwrong, fun h => absurd h (show ¬(0 : Int) ≤ -1 by decide)⟩
  next hright => exact ⟨fun _ => Int.natCast_nonneg _, fun _ => (not_not.mp hright).symm⟩

end Coping.NodeInfo
