import Mathlib.Data.List.Basic

/-!
# Hashing block by block

`absorb` folds a compression function over the whole blocks of `n` elements at the front of
its input; `pending` is what is left behind them. An input that comes in parts can be
absorbed part by part, as long as what was left is put in front of the next part.
-/

namespace BlockHash

variable {σ α : Type*} (n : Nat) (compress : σ → List α → σ)

/-- The chaining value behind the first `k` blocks. -/
def blocks : Nat → σ → List α → σ
  | 0, s, _ => s
  | k + 1, s, xs => blocks k (compress s (xs.take n)) (xs.drop n)

/-- The chaining value behind all whole blocks. -/
def absorb (s : σ) (xs : List α) : σ := blocks n compress (xs.length / n) s xs

/-- What fills no block. -/
def pending (xs : List α) : List α := xs.drop (n * (xs.length / n))

variable {n : Nat} {compress : σ → List α → σ} {s : σ} {xs : List α}

theorem absorb_of_lt (short : xs.length < n) : absorb n compress s xs = s := by
  rw [absorb, Nat.div_eq_of_lt short, blocks]

theorem pending_of_lt (short : xs.length < n) : pending n xs = xs := by
  rw [pending, Nat.div_eq_of_lt short, Nat.mul_zero, List.drop_zero]

theorem length_pending (xs : List α) : (pending n xs).length = xs.length % n := by
  rw [pending, List.length_drop, Nat.mod_def]

theorem absorb_step (positive : 0 < n) (long : n ≤ xs.length) :
    absorb n compress s xs = absorb n compress (compress s (xs.take n)) (xs.drop n) := by
  have hcount : xs.length / n = (xs.length - n) / n + 1 := Nat.div_eq_sub_div positive long
  rw [absorb, absorb, hcount, blocks, List.length_drop]

theorem pending_step (positive : 0 < n) (long : n ≤ xs.length) :
    pending n xs = pending n (xs.drop n) := by
  have hcount : xs.length / n = (xs.length - n) / n + 1 := Nat.div_eq_sub_div positive long
  rw [pending, pending, hcount, List.length_drop, List.drop_drop, Nat.mul_succ, Nat.add_comm]

/-- A block that is filled up is compressed. -/
theorem absorb_append_of_length (positive : 0 < n) (block : xs.length = n) (ys : List α) :
    absorb n compress s (xs ++ ys) = absorb n compress (compress s xs) ys := by
  rw [absorb_step positive (by rw [List.length_append, block]; exact Nat.le_add_right n _),
    List.take_left' block, List.drop_left' block]

theorem absorb_of_length (positive : 0 < n) (block : xs.length = n) :
    absorb n compress s xs = compress s xs := by
  have hnil : absorb n compress (compress s xs) [] = compress s xs := absorb_of_lt positive
  rw [← List.append_nil xs, absorb_append_of_length positive block, hnil, List.append_nil]

theorem pending_append_of_length (positive : 0 < n) (block : xs.length = n) (ys : List α) :
    pending n (xs ++ ys) = pending n ys := by
  rw [pending_step positive (by rw [List.length_append, block]; exact Nat.le_add_right n _),
    List.drop_left' block]

/-- Absorbing goes on where it was left. -/
theorem absorb_append (positive : 0 < n) (s : σ) (xs ys : List α) :
    absorb n compress s (xs ++ ys) =
      absorb n compress (absorb n compress s xs) (pending n xs ++ ys) := by
  induction hlength : xs.length using Nat.strongRecOn generalizing s xs with
  | ind length ih =>
      by_cases hlong : n ≤ xs.length
      · have hshorter : (xs.drop n).length < length := by
          rw [List.length_drop]
          omega
        have hfront : n ≤ (xs ++ ys).length := by
          rw [List.length_append]
          omega
        rw [absorb_step positive hfront, List.take_append_of_le_length hlong,
          List.drop_append_of_le_length hlong, ih _ hshorter _ _ rfl,
          absorb_step positive hlong, pending_step positive hlong]
      · rw [absorb_of_lt (Nat.not_le.mp hlong), pending_of_lt (Nat.not_le.mp hlong)]

theorem pending_append (positive : 0 < n) (xs ys : List α) :
    pending n (xs ++ ys) = pending n (pending n xs ++ ys) := by
  induction hlength : xs.length using Nat.strongRecOn generalizing xs with
  | ind length ih =>
      by_cases hlong : n ≤ xs.length
      · have hshorter : (xs.drop n).length < length := by
          rw [List.length_drop]
          omega
        have hfront : n ≤ (xs ++ ys).length := by
          rw [List.length_append]
          omega
        rw [pending_step positive hfront, List.drop_append_of_le_length hlong,
          ih _ hshorter _ rfl, pending_step positive hlong]
      · rw [pending_of_lt (Nat.not_le.mp hlong)]

end BlockHash
