import Coping.Ping.TripTime

/-!
# The time of a reply

The time that a reply carries is whatever its sender has put there. It is subtracted in signed
64-bit arithmetic before anything is looked at, so it has to be near enough to the receive time;
with that the time is in range, and exact if it makes sense.
-/

namespace Coping.TripTime

open CInt

/-- Microseconds since the epoch. -/
def micros (tv : Timeval) : Int := tv.tvSec * 1000000 + tv.tvUsec

def Normalised (tv : Timeval) : Prop := 0 ≤ tv.tvUsec ∧ tv.tvUsec < 1000000

/-- Both fields have the type `long`. -/
structure Stored (tv : Timeval) : Prop where
  sec : InLong tv.tvSec
  usec : InLong tv.tvUsec

/-- The time computation overflows nowhere, subtracts at most twice and yields a time in range,
which is the difference where that is one of `0` to `2147.999999` seconds. -/
def Sound (optLatency : Bool) (reply : Reply) : Prop :=
  ∃ time subs, restamp optLatency reply.tv reply.stamp reply.now = some (time, subs) ∧ subs ≤ 2 ∧
    0 ≤ time ∧ time ≤ 2147999999 ∧
      (Normalised reply.stamp → 0 ≤ micros reply.tv - micros reply.stamp →
        micros reply.tv - micros reply.stamp ≤ 2147999999 →
          time = micros reply.tv - micros reply.stamp)

/-- The second that is borrowed for the microseconds. -/
def borrow (tv stamp : Timeval) : Int := if tv.tvUsec < stamp.tvUsec then 1 else 0

/-- The two times are near enough. -/
structure Near (tv stamp : Timeval) : Prop where
  usec : InLong (tv.tvUsec - stamp.tvUsec)
  borrowed : InLong (tv.tvSec - borrow tv stamp)
  sec : InLong (tv.tvSec - borrow tv stamp - stamp.tvSec)

/-- The time of day went back. -/
def WentBack (tv stamp : Timeval) : Prop := tv.tvSec - borrow tv stamp < stamp.tvSec

/-- The time in the reply is near enough to the times that it is subtracted from. -/
structure InReach (optLatency : Bool) (reply : Reply) : Prop where
  received : Near reply.tv reply.stamp
  again : optLatency = false → WentBack reply.tv reply.stamp → Near reply.now reply.stamp

/-! ## One subtraction -/

section Subtraction

variable {tv stamp : Timeval}

/-- The difference of the two times. -/
def difference (tv stamp : Timeval) : Timeval where
  tvSec := tv.tvSec - borrow tv stamp - stamp.tvSec
  tvUsec := tv.tvUsec - stamp.tvUsec + borrow tv stamp * 1000000

theorem tvsubChecked_eq_some (stored : Stored tv) {diff : Timeval} :
    tvsubChecked tv stamp = some diff ↔ Near tv stamp ∧ diff = difference tv stamp := by
  rw [tvsubChecked, Option.bind_eq_bind, Option.bind_eq_some_iff]
  by_cases hless : tv.tvUsec < stamp.tvUsec
  · have hborrow : borrow tv stamp = 1 := if_pos hless
    have hneg : tv.tvUsec - stamp.tvUsec < 0 := by omega
    constructor
    · rintro ⟨usec, husec, h⟩
      obtain ⟨hfits, rfl⟩ := checkedLong_eq_some.mp husec
      rw [if_pos hneg] at h
      obtain ⟨sec, hsec, h⟩ := Option.bind_eq_some_iff.mp h
      obtain ⟨hborrowed, rfl⟩ := checkedLong_eq_some.mp hsec
      obtain ⟨sec, hsec, h⟩ := Option.bind_eq_some_iff.mp h
      obtain ⟨hsub, rfl⟩ := checkedLong_eq_some.mp hsec
      cases h
      refine ⟨⟨hfits, by rwa [hborrow], by rwa [hborrow]⟩, ?_⟩
      rw [difference, hborrow]
      rfl
    · rintro ⟨hnear, rfl⟩
      obtain ⟨hfits, hborrowed, hsub⟩ := hnear
      rw [hborrow] at hborrowed hsub
      refine ⟨_, checkedLong_of_inLong hfits, ?_⟩
      rw [if_pos hneg, checkedLong_of_inLong hborrowed, Option.bind_some,
        checkedLong_of_inLong hsub, difference, hborrow]
      rfl
  · have hborrow : borrow tv stamp = 0 := if_neg hless
    have hnonneg : ¬tv.tvUsec - stamp.tvUsec < 0 := by omega
    constructor
    · rintro ⟨usec, husec, h⟩
      obtain ⟨hfits, rfl⟩ := checkedLong_eq_some.mp husec
      rw [if_neg hnonneg] at h
      obtain ⟨sec, hsec, h⟩ := Option.bind_eq_some_iff.mp h
      obtain ⟨hsub, rfl⟩ := checkedLong_eq_some.mp hsec
      cases h
      refine ⟨⟨hfits, ?_, ?_⟩, ?_⟩
      · rw [hborrow, Int.sub_zero]
        exact stored.sec
      · rwa [hborrow, Int.sub_zero]
      · rw [difference, hborrow, Int.sub_zero, Int.zero_mul, Int.add_zero]
    · rintro ⟨hnear, rfl⟩
      obtain ⟨hfits, -, hsub⟩ := hnear
      rw [hborrow, Int.sub_zero] at hsub
      refine ⟨_, checkedLong_of_inLong hfits, ?_⟩
      rw [if_neg hnonneg, checkedLong_of_inLong hsub, difference, hborrow, Int.sub_zero,
        Int.zero_mul, Int.add_zero]
      rfl

/-- Without an overflow, the subtraction is the one that wraps around. -/
theorem tvsub_difference (near : Near tv stamp) : tvsub tv stamp = difference tv stamp := by
  rw [tvsub, toInt64_of_inLong near.usec]
  by_cases hless : tv.tvUsec < stamp.tvUsec
  · have hborrow : borrow tv stamp = 1 := if_pos hless
    have hborrowed := near.borrowed
    have hsub := near.sec
    rw [hborrow] at hborrowed hsub
    rw [if_pos (by omega), toInt64_of_inLong hborrowed, toInt64_of_inLong hsub, difference, hborrow]
    rfl
  · have hborrow : borrow tv stamp = 0 := if_neg hless
    have hsub := near.sec
    rw [hborrow, Int.sub_zero] at hsub
    rw [if_neg (by omega), toInt64_of_inLong hsub, difference, hborrow, Int.sub_zero,
      Int.zero_mul, Int.add_zero]

end Subtraction

/-! ## The computation -/

section Computation

variable {optLatency : Bool} {tv stamp now : Timeval}

theorem elapsed_of_near (near : Near tv stamp) :
    elapsed tv stamp =
      let diff := clampUsec (difference tv stamp)
      if diff.tvSec > TV_SEC_MAX_VAL then some 0
      else if diff.tvSec < 0 then none
      else some (diff.tvSec * 1000000 + diff.tvUsec) := by
  rw [elapsed, tvsub_difference near]

/-- A pass that ends yields the time of the unchecked one, after one subtraction. -/
theorem restamp_of_elapsed (stored : Stored tv) (near : Near tv stamp) {time : Int}
    (h : elapsed tv stamp = some time) : restamp optLatency tv stamp now = some (time, 1) := by
  have hbounds := And.intro (elapsed_nonneg h) (elapsed_le h)
  rw [restamp, (tvsubChecked_eq_some stored).mpr ⟨near, rfl⟩, Option.bind_eq_bind, Option.bind_some]
  rw [elapsed_of_near near] at h
  dsimp only at h ⊢
  split at h
  next hlate =>
    cases h
    exact if_pos hlate
  next hlate =>
    split at h
    · cases h
    next hback =>
      cases h
      have hlong : InLong ((clampUsec (difference tv stamp)).tvSec * 1000000 +
          (clampUsec (difference tv stamp)).tvUsec) := by
        simp only [InLong, longMax]
        omega
      rw [if_neg hlate, if_neg hback, checkedLong_of_inLong hlong]
      rfl

theorem elapsed_eq_none (near : Near tv stamp) : elapsed tv stamp = none ↔ WentBack tv stamp := by
  rw [elapsed_of_near near, WentBack]
  dsimp only
  have hsec : (clampUsec (difference tv stamp)).tvSec =
      tv.tvSec - borrow tv stamp - stamp.tvSec := rfl
  rw [hsec, TV_SEC_MAX_VAL]
  split
  next hlate => exact ⟨fun h => (by cases h), fun h => (by omega)⟩
  next hlate =>
    split
    next hback => exact ⟨fun _ => (by omega), fun _ => rfl⟩
    next hback => exact ⟨fun h => (by cases h), fun h => (by omega)⟩

/-- A pass after which the time has gone back. -/
theorem restamp_of_back (stored : Stored tv) (near : Near tv stamp)
    (back : elapsed tv stamp = none) :
    restamp optLatency tv stamp now =
      if optLatency then some (0, 1)
      else (restamp true now stamp now).map fun again => (again.1, again.2 + 1) := by
  rw [restamp, (tvsubChecked_eq_some stored).mpr ⟨near, rfl⟩, Option.bind_eq_bind, Option.bind_some]
  rw [elapsed_of_near near] at back
  dsimp only at back ⊢
  split at back
  · cases back
  next hlate =>
    split at back
    next hback =>
      rw [if_neg hlate, if_pos hback]
      split
      · rfl
      · cases restamp true now stamp now <;> rfl
    · cases back

theorem restamp_eq_none (stored : Stored tv) (far : ¬Near tv stamp) :
    restamp optLatency tv stamp now = none := by
  have hnone : tvsubChecked tv stamp = none := by
    apply Option.eq_none_iff_forall_ne_some.mpr
    intro diff hdiff
    exact far ((tvsubChecked_eq_some stored).mp hdiff).1
  rw [restamp, hnone]
  rfl

/-- The last pass there can be. -/
theorem restamp_latency (stored : Stored tv) (near : Near tv stamp) :
    restamp true tv stamp now = some ((elapsed tv stamp).getD 0, 1) := by
  cases h : elapsed tv stamp with
  | none => rw [restamp_of_back stored near h, if_pos rfl, Option.getD_none]
  | some time => rw [restamp_of_elapsed stored near h, Option.getD_some]

/-- With times in reach the computation is the one of `triptime`. -/
theorem restamp_of_inReach {reply : Reply} (stored : Stored reply.tv) (stored' : Stored reply.now)
    (h : InReach optLatency reply) : ∃ subs, subs ≤ 2 ∧
      restamp optLatency reply.tv reply.stamp reply.now =
        some (triptime optLatency reply, subs) := by
  rw [triptime]
  cases helapsed : elapsed reply.tv reply.stamp with
  | some time => exact ⟨1, by decide, restamp_of_elapsed stored h.received helapsed⟩
  | none =>
      rw [restamp_of_back stored h.received helapsed]
      cases hlatency : optLatency with
      | true => exact ⟨1, by decide, rfl⟩
      | false =>
          have hback := (elapsed_eq_none h.received).mp helapsed
          rw [if_neg Bool.false_ne_true, restamp_latency stored' (h.again hlatency hback)]
          exact ⟨2, by decide, rfl⟩

theorem inReach_of_restamp {reply : Reply} (stored : Stored reply.tv) (stored' : Stored reply.now)
    {result : Int × Nat}
    (h : restamp optLatency reply.tv reply.stamp reply.now = some result) :
    InReach optLatency reply := by
  have hreceived : Near reply.tv reply.stamp := by
    by_contra hfar
    rw [restamp_eq_none stored hfar] at h
    cases h
  refine ⟨hreceived, ?_⟩
  intro hlatency hback
  by_contra hfar
  rw [restamp_of_back stored hreceived ((elapsed_eq_none hreceived).mpr hback), hlatency,
    if_neg Bool.false_ne_true, restamp_eq_none stored' hfar] at h
  cases h

/-- A difference that makes sense is the time of the reply. -/
theorem elapsed_exact (near : Near tv stamp) (normalised : Normalised tv)
    (normalised' : Normalised stamp) (nonneg : 0 ≤ micros tv - micros stamp)
    (le : micros tv - micros stamp ≤ 2147999999) :
    elapsed tv stamp = some (micros tv - micros stamp) := by
  obtain ⟨hlower, hupper⟩ := normalised
  obtain ⟨hlower', hupper'⟩ := normalised'
  simp only [micros] at nonneg le ⊢
  have hborrow : borrow tv stamp = 1 ∧ tv.tvUsec < stamp.tvUsec ∨
      borrow tv stamp = 0 ∧ ¬tv.tvUsec < stamp.tvUsec := by
    rw [borrow]
    split <;> simp_all
  have hclamp : clampUsec (difference tv stamp) = difference tv stamp := by
    rw [clampUsec, if_neg (by rw [difference]; dsimp only; omega),
      if_neg (by rw [difference]; dsimp only; omega)]
  rw [elapsed_of_near near, hclamp, difference, TV_SEC_MAX_VAL]
  dsimp only
  rw [if_neg (by omega), if_neg (by omega)]
  congr 1
  omega

end Computation

/-- The time computation is sound exactly when the time in the reply is near enough to the times
that it is subtracted from. -/
theorem triptime_sound_iff (optLatency : Bool) (reply : Reply) (stored : Stored reply.tv)
    (stored' : Stored reply.now) (normalised : Normalised reply.tv) :
    Sound optLatency reply ↔ InReach optLatency reply := by
  constructor
  · rintro ⟨time, subs, h, -⟩
    exact inReach_of_restamp stored stored' h
  · intro h
    obtain ⟨subs, hsubs, hrestamp⟩ := restamp_of_inReach stored stored' h
    refine ⟨_, subs, hrestamp, hsubs, triptime_nonneg _ _, triptime_le _ _, ?_⟩
    intro hstamp hnonneg hle
    rw [triptime, elapsed_exact h.received normalised hstamp hnonneg hle]

/-- A reply after 1 ms. -/
def promptReply : Reply :=
  { cc := 64
    seq := 1
    csfailed := false
    tv := { tvSec := 1700000000, tvUsec := 2000 }
    stamp := { tvSec := 1700000000, tvUsec := 1000 } }

theorem triptime_sound_prompt : Sound false promptReply ↔ InReach false promptReply :=
  triptime_sound_iff false promptReply ⟨by decide, by decide⟩ ⟨by decide, by decide⟩
    ⟨by decide, by decide⟩

/-- A reply in which somebody has put the least number of microseconds there is. -/
def forgedReply : Reply :=
  { promptReply with stamp := { tvSec := 1700000000, tvUsec := -9223372036854775808 } }

theorem triptime_overflows :
    ¬∀ (optLatency : Bool) (reply : Reply), Stored reply.tv → Stored reply.stamp →
      Stored reply.now → Normalised reply.tv → Sound optLatency reply := by
  intro sound
  have hforged := sound false forgedReply ⟨by decide, by decide⟩ ⟨by decide, by decide⟩
    ⟨by decide, by decide⟩ ⟨by decide, by decide⟩
  obtain ⟨time, subs, hrestamp, -⟩ := hforged
  have hreach : InReach false forgedReply :=
    inReach_of_restamp ⟨by decide, by decide⟩ ⟨by decide, by decide⟩ hrestamp
  exact absurd hreach.received.usec (by decide)

end Coping.TripTime
